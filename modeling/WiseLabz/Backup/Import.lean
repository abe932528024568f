/-
**Importing a backup into a store.**

A bundle is validated, and then each of its records is created unless the store has it.  Docs are
created first and get their parents after, from whatever row of the store has the parent's id.

Main definitions:

* `Backup.Tables`, `Backup.Bundle` — a store and a bundle;
* `Backup.validateDocs` — the checks of a bundle on its docs;
* `Backup.importBundle`, `Backup.importInto` — **the import**, in one transaction;
* `Backup.Additive` — rows are added and none changes.

Main results:

* `Backup.importBundle_additive` — an import only adds rows;
* `Backup.importDocs_spec` — **which docs an import leaves**.
-/

import WiseLabz.Lib.Fallible
import WiseLabz.Lib.Sorting
import WiseLabz.Lib.Table
import WiseLabz.Store.Docs

set_option relaxedAutoImplicit false
set_option autoImplicit false

namespace WiseLabz.Backup

open Lib
open Store (DocRecord)

/-! ### Records -/

structure ConnectorRecord where
  id : Bytes
  name : Bytes
  type : Bytes
  configData : Bytes
  deriving DecidableEq, Repr

structure TemplateRecord where
  id : Bytes
  name : Bytes
  deriving DecidableEq, Repr

structure TemplateSectionRecord where
  id : Bytes
  templateId : Bytes
  title : Bytes
  body : Bytes
  deriving DecidableEq, Repr

structure DocVersionRecord where
  id : Bytes
  docId : Bytes
  rev : ℕ
  content : Bytes
  deriving DecidableEq, Repr

structure DocAttachment where
  id : Bytes
  docId : Bytes
  sha256 : Bytes
  deriving DecidableEq, Repr

structure JournalEntry where
  id : Bytes
  body : Bytes
  connectorId : Bytes
  docId : Bytes
  deriving DecidableEq, Repr

/-- One of the two members of a merge: connector, kind and ref. -/
structure MemberKey where
  connectorId : Bytes
  kind : Bytes
  ref : Bytes
  deriving DecidableEq, Repr

structure EntityIdentityOverride where
  id : Bytes
  action : Bytes
  member : MemberKey
  /-- Empty texts, unless the action is a merge. -/
  other : MemberKey
  deriving DecidableEq, Repr

structure RunbookRecord where
  id : Bytes
  title : Bytes
  targetType : Bytes
  targetValue : Bytes
  docId : Bytes
  deriving DecidableEq, Repr

structure RunbookStepRecord where
  id : Bytes
  runbookId : Bytes
  position : ℕ
  kind : Bytes
  timeoutSeconds : ℕ
  deriving DecidableEq, Repr

/-- A link in a doc's content. -/
structure DocLink where
  sourceDocId : Bytes
  targetType : Bytes
  targetId : Bytes
  deriving DecidableEq, Repr

structure Tables where
  connectors : List ConnectorRecord
  templates : List TemplateRecord
  templateSections : List TemplateSectionRecord
  docs : List DocRecord
  docLinks : List DocLink
  docVersions : List DocVersionRecord
  attachments : List DocAttachment
  journalEntries : List JournalEntry
  overrides : List EntityIdentityOverride
  runbooks : List RunbookRecord
  runbookSteps : List RunbookStepRecord
  deriving DecidableEq

/-- A UUID. -/
def FreshId := { id : Bytes // id ≠ [] }

/-- A record of a bundle, with the UUID that it is given if it has no id. -/
structure Entry (α : Type) where
  record : α
  newId : FreshId

structure Bundle where
  connectors : List (Entry ConnectorRecord)
  templates : List (Entry TemplateRecord)
  templateSections : List (Entry TemplateSectionRecord)
  docs : List (Entry DocRecord)
  docVersions : List (Entry DocVersionRecord)
  attachments : List (Entry DocAttachment)
  journalEntries : List (Entry JournalEntry)
  overrides : List EntityIdentityOverride
  runbooks : List RunbookRecord
  runbookSteps : List RunbookStepRecord

/-- Why a bundle is not imported. -/
inductive ImportError
  | invalidParent (docId : Bytes)
  | maximumDepth (docId : Bytes)
  | constraint
  | actions (connectorId : Bytes)
  deriving DecidableEq, Repr

/-! ### Validation -/

/-- `docsByID`: the last doc of the bundle with an id. -/
def docByID (docs : List DocRecord) (id : Bytes) : Option DocRecord :=
  docs.reverse.find? fun d => d.id = id

/-- The loop over the parents of a doc of the bundle, which may have `more` parents. -/
def validateChain (docs : List DocRecord) (d : DocRecord) :
    ℕ → List Bytes → Bytes → Except ImportError Unit
  | more, seen, parentId =>
      if parentId = [] then .ok ()
      else
        match docByID docs parentId with
        | none => .error (.invalidParent d.id)
        | some parent =>
            if parent.serviceId ≠ d.serviceId ∨ parentId ∈ seen ∨
                (d.deletedAt = none ∧ parent.deletedAt ≠ none) then
              .error (.invalidParent d.id)
            else
              match more with
              | 0 => .error (.maximumDepth d.id)
              | more + 1 => validateChain docs d more (parentId :: seen) parent.parentId

/-- **The checks of `ValidateBundle` on the docs.** -/
def validateDocs (docs : List DocRecord) : Except ImportError Unit :=
  docs.forM fun d => validateChain docs d 4 [d.id] d.parentId

/-! ### Creating rows -/

/-- A row of one of the tables. -/
inductive Row
  | connector (r : ConnectorRecord)
  | template (r : TemplateRecord)
  | templateSection (r : TemplateSectionRecord)
  | doc (r : DocRecord)
  | docVersion (r : DocVersionRecord)
  | attachment (r : DocAttachment)
  | journalEntry (r : JournalEntry)
  | override (r : EntityIdentityOverride)
  | runbook (r : RunbookRecord)
  | runbookStep (r : RunbookStepRecord)

/-- What the import asks of the rest of the program. -/
structure Env where
  /-- The constraints of the schema on a row that is inserted, besides the key of its table. -/
  accepts : Tables → Row → Bool
  /-- `importedConnectorHasActions`, unless the configuration cannot be read. -/
  hasActions : ConnectorRecord → Option Bool
  /-- `doclink.Extract`: the targets that a content links to. -/
  extract : Bytes → List (Bytes × Bytes)
  /-- Whether the key of a member is greater than that of another one. -/
  keyGreater : MemberKey → MemberKey → Bool

/-- Whether the table of a row has a row under its id. -/
def Tables.has (s : Tables) : Row → Bool
  | .connector r => s.connectors.any fun r' => r'.id = r.id
  | .template r => s.templates.any fun r' => r'.id = r.id
  | .templateSection r => s.templateSections.any fun r' => r'.id = r.id
  | .doc r => s.docs.any fun r' => r'.id = r.id
  | .docVersion r => s.docVersions.any fun r' => r'.id = r.id
  | .attachment r => s.attachments.any fun r' => r'.id = r.id
  | .journalEntry r => s.journalEntries.any fun r' => r'.id = r.id
  | .override r => s.overrides.any fun r' => r'.id = r.id
  | .runbook r => s.runbooks.any fun r' => r'.id = r.id
  | .runbookStep r => s.runbookSteps.any fun r' => r'.id = r.id

def Tables.add (s : Tables) : Row → Tables
  | .connector r => { s with connectors := s.connectors ++ [r] }
  | .template r => { s with templates := s.templates ++ [r] }
  | .templateSection r => { s with templateSections := s.templateSections ++ [r] }
  | .doc r => { s with docs := s.docs ++ [r] }
  | .docVersion r => { s with docVersions := s.docVersions ++ [r] }
  | .attachment r => { s with attachments := s.attachments ++ [r] }
  | .journalEntry r => { s with journalEntries := s.journalEntries ++ [r] }
  | .override r => { s with overrides := s.overrides ++ [r] }
  | .runbook r => { s with runbooks := s.runbooks ++ [r] }
  | .runbookStep r => { s with runbookSteps := s.runbookSteps ++ [r] }

/-- `INSERT`. -/
def insertRow (env : Env) (s : Tables) (r : Row) : Except ImportError Tables :=
  if s.has r ∨ env.accepts s r = false then .error .constraint else .ok (s.add r)

/-- The id of a record, or the UUID it is given. -/
def idOr (id : Bytes) (newId : FreshId) : Bytes := if id = [] then newId.val else id

/-- The row of a doc of a bundle when it is created: without its parent. -/
def created (e : Entry DocRecord) : DocRecord :=
  { e.record with
    id := idOr e.record.id e.newId
    currentVersion := if e.record.currentVersion = 0 then 1 else e.record.currentVersion
    parentId := [] }

/-- `syncDocLinks`. -/
def syncDocLinks (env : Env) (s : Tables) (id content : Bytes) : Tables :=
  { s with
    docLinks := (s.docLinks.filter fun l => l.sourceDocId ≠ id) ++
      (env.extract content).map fun t => ⟨id, t.1, t.2⟩ }

/-- `CreateDoc`. -/
def createDoc (env : Env) (s : Tables) (e : Entry DocRecord) : Except ImportError Tables := do
  let t ← insertRow env s (.doc (created e))
  return syncDocLinks env t (created e).id (created e).content

/-! ### The import of each table -/

/-- How many records are imported, and how many are skipped. -/
structure Counts where
  imported : ℕ
  skipped : ℕ
  deriving DecidableEq, Repr

/-- The loop over records: those that are known already are skipped, the others are created. -/
def importRecords {α : Type} (known : Tables → α → Bool)
    (create : Tables → α → Except ImportError Tables) (s : Tables) (c : Counts) :
    List α → Except ImportError (Tables × Counts)
  | [] => .ok (s, c)
  | r :: rs =>
      if known s r then importRecords known create s { c with skipped := c.skipped + 1 } rs
      else do
        let t ← create s r
        importRecords known create t { c with imported := c.imported + 1 } rs

/-- `importConnectors`; a connector whose actions cannot be told fails the import. -/
def importConnectors (env : Env) (s : Tables) (rs : List (Entry ConnectorRecord)) :
    Except ImportError (Tables × Counts) :=
  importRecords (fun _ e => s.has (.connector e.record)) (fun t e => do
    let r := { e.record with id := idOr e.record.id e.newId }
    let t ← insertRow env t (.connector r)
    match env.hasActions r with
    | none => .error (.actions r.id)
    | some _ => return t) s ⟨0, 0⟩ rs

/-- `importTemplates`. -/
def importTemplates (env : Env) (s : Tables) (rs : List (Entry TemplateRecord)) :
    Except ImportError (Tables × Counts) :=
  importRecords (fun _ e => s.has (.template e.record)) (fun t e =>
    insertRow env t (.template { e.record with id := idOr e.record.id e.newId })) s ⟨0, 0⟩ rs

/-- `importTemplateSections`: only the sections of the bundle's templates are looked at. -/
def importTemplateSections (env : Env) (s : Tables) (rs : List (Entry TemplateSectionRecord))
    (templateIds : List Bytes) : Except ImportError (Tables × Counts) :=
  importRecords (fun _ e => s.templateSections.any fun r =>
      decide (r.templateId ∈ templateIds) && decide (r.id = e.record.id)) (fun t e =>
    insertRow env t (.templateSection { e.record with id := idOr e.record.id e.newId })) s ⟨0, 0⟩ rs

/-- The docs are created. -/
def createDocs (env : Env) (s : Tables) (rs : List (Entry DocRecord)) :
    Except ImportError (Tables × Counts) :=
  importRecords (fun _ e => s.has (.doc e.record)) (createDoc env) s ⟨0, 0⟩ rs

/-- `UPDATE docs SET parent_id = ? WHERE id = ?`; the parent must exist. -/
def setParent (t : Tables) (id parentId : Bytes) : Except ImportError Tables :=
  if (t.docs.any fun d => d.id = id) ∧ ¬ (t.docs.any fun d => d.id = parentId) then .error .constraint
  else .ok { t with docs := t.docs.map fun d => if d.id = id then { d with parentId := parentId } else d }

/-- The loop that gives the created docs their parents. -/
def setParents (s : Tables) (t : Tables) : List DocRecord → Except ImportError Tables
  | [] => .ok t
  | d :: ds =>
      if s.has (.doc d) = true ∨ d.parentId = [] then setParents s t ds
      else do
        let t ← setParent t d.id d.parentId
        setParents s t ds

/-- The part of `importBundle` that imports the docs. -/
def importDocs (env : Env) (s : Tables) (rs : List (Entry DocRecord)) :
    Except ImportError (Tables × Counts) := do
  let (t, c) ← createDocs env s rs
  let t ← setParents s t (rs.map Entry.record)
  return (t, c)

/-- `importDocVersions`: only the versions of the bundle's docs are looked at. -/
def importDocVersions (env : Env) (s : Tables) (rs : List (Entry DocVersionRecord))
    (docIds : List Bytes) : Except ImportError (Tables × Counts) :=
  importRecords (fun _ e => s.docVersions.any fun r =>
      decide (r.docId ∈ docIds) && decide (r.id = e.record.id)) (fun t e =>
    insertRow env t (.docVersion { e.record with id := idOr e.record.id e.newId })) s ⟨0, 0⟩ rs

def importAttachments (env : Env) (s : Tables) (rs : List (Entry DocAttachment)) :
    Except ImportError (Tables × Counts) :=
  importRecords (fun t e => t.has (.attachment e.record)) (fun t e =>
    insertRow env t (.attachment { e.record with id := idOr e.record.id e.newId })) s ⟨0, 0⟩ rs

def importJournalEntries (env : Env) (s : Tables) (rs : List (Entry JournalEntry)) :
    Except ImportError (Tables × Counts) :=
  importRecords (fun t e => t.has (.journalEntry e.record)) (fun t e =>
    insertRow env t (.journalEntry { e.record with id := idOr e.record.id e.newId })) s ⟨0, 0⟩ rs

/-- `sortMergePair`, for a merge. -/
def EntityIdentityOverride.sorted (env : Env) (o : EntityIdentityOverride) : EntityIdentityOverride :=
  if o.action = bytes "merge" ∧ env.keyGreater o.member o.other then
    { o with member := o.other, other := o.member }
  else o

/-- `ImportEntityIdentityOverride` for each override: one with the same id or the same members is
kept. -/
def importOverrides (env : Env) (s : Tables) (rs : List EntityIdentityOverride) :
    Except ImportError (Tables × Counts) :=
  importRecords (fun t o => t.overrides.any fun r => decide (r.id = o.id) ||
      (decide (r.action = (o.sorted env).action) && decide (r.member = (o.sorted env).member) &&
        decide (r.other = (o.sorted env).other)))
    (fun t o => insertRow env t (.override (o.sorted env))) s ⟨0, 0⟩ rs

/-- `isWaitStepKind`. -/
def isWaitStepKind (kind : Bytes) : Bool :=
  kind = bytes "sync_and_wait" || kind = bytes "wait_until_healthy" || kind = bytes "wait_for_entity"

/-- The defaults of a step of an older bundle. -/
def RunbookStepRecord.withDefaults (r : RunbookStepRecord) : RunbookStepRecord :=
  let kind := if r.kind = [] then bytes "lifecycle" else r.kind
  { r with
    kind := kind
    timeoutSeconds := if r.timeoutSeconds = 0 ∧ isWaitStepKind kind then 300 else r.timeoutSeconds }

/-- `importRunbooks`: a runbook is skipped, with its steps, if the store had its id or its target. -/
def importRunbooks (env : Env) (s : Tables) (rs : List RunbookRecord)
    (steps : List RunbookStepRecord) : Except ImportError (Tables × Counts) :=
  importRecords (fun _ r => s.runbooks.any fun r' => decide (r'.id = r.id) ||
      (decide (r'.targetType = r.targetType) && decide (r'.targetValue = r.targetValue)))
    (fun t r => do
      let t ← insertRow env t (.runbook r)
      (steps.filter fun step => step.runbookId = r.id).foldlM (fun t step =>
        insertRow env t (.runbookStep step.withDefaults)) t) s ⟨0, 0⟩ rs

/-- How many records of each table are imported and skipped. -/
structure Result where
  connectors : Counts
  templates : Counts
  templateSections : Counts
  docs : Counts
  docVersions : Counts
  attachments : Counts
  journalEntries : Counts
  overrides : Counts
  runbooks : Counts
  deriving DecidableEq, Repr

/-- **`importBundle`.** -/
def importBundle (env : Env) (s : Tables) (b : Bundle) : Except ImportError (Tables × Result) := do
  let (s, connectors) ← importConnectors env s b.connectors
  let (s, templates) ← importTemplates env s b.templates
  let (s, sections) ← importTemplateSections env s b.templateSections
    (b.templates.map fun e => e.record.id)
  let (s, docs) ← importDocs env s b.docs
  let (s, versions) ← importDocVersions env s b.docVersions (b.docs.map fun e => e.record.id)
  let (s, attachments) ← importAttachments env s b.attachments
  let (s, journal) ← importJournalEntries env s b.journalEntries
  let (s, overrides) ← importOverrides env s b.overrides
  let (s, runbooks) ← importRunbooks env s b.runbooks b.runbookSteps
  return (s, ⟨connectors, templates, sections, docs, versions, attachments, journal, overrides,
    runbooks⟩)

/-- **`Import`**: validated first, and in one transaction, so that a failure leaves the store as it
was. -/
def importInto (env : Env) (s : Tables) (b : Bundle) : Tables × Except ImportError Result :=
  match validateDocs (b.docs.map Entry.record) with
  | .error err => (s, .error err)
  | .ok () =>
      match importBundle env s b with
      | .error err => (s, .error err)
      | .ok (t, res) => (t, .ok res)

/-! ### Rows are only added -/

/-- **Rows are added and none changes.** -/
structure Additive (s t : Tables) : Prop where
  connectors : s.connectors <+: t.connectors
  templates : s.templates <+: t.templates
  templateSections : s.templateSections <+: t.templateSections
  docs : s.docs <+: t.docs
  docLinks : s.docLinks <+: t.docLinks
  docVersions : s.docVersions <+: t.docVersions
  attachments : s.attachments <+: t.attachments
  journalEntries : s.journalEntries <+: t.journalEntries
  overrides : s.overrides <+: t.overrides
  runbooks : s.runbooks <+: t.runbooks
  runbookSteps : s.runbookSteps <+: t.runbookSteps

theorem Additive.refl (s : Tables) : Additive s s := by
  constructor <;> exact List.prefix_refl _

theorem Additive.trans {s t u : Tables} (h : Additive s t) (h' : Additive t u) : Additive s u where
  connectors := h.connectors.trans h'.connectors
  templates := h.templates.trans h'.templates
  templateSections := h.templateSections.trans h'.templateSections
  docs := h.docs.trans h'.docs
  docLinks := h.docLinks.trans h'.docLinks
  docVersions := h.docVersions.trans h'.docVersions
  attachments := h.attachments.trans h'.attachments
  journalEntries := h.journalEntries.trans h'.journalEntries
  overrides := h.overrides.trans h'.overrides
  runbooks := h.runbooks.trans h'.runbooks
  runbookSteps := h.runbookSteps.trans h'.runbookSteps

theorem Additive.add (s : Tables) (r : Row) : Additive s (s.add r) := by
  cases r <;> constructor <;> first | exact List.prefix_refl _ | exact List.prefix_append _ _

/-- A link's doc exists. -/
def LinksOk (s : Tables) : Prop := ∀ l ∈ s.docLinks, ∃ d ∈ s.docs, d.id = l.sourceDocId

/-- What a step of the import keeps. -/
def Kept (s t : Tables) : Prop := LinksOk s → Additive s t ∧ LinksOk t

theorem Kept.refl (s : Tables) : Kept s s := fun h => ⟨.refl s, h⟩

theorem Kept.trans {s t u : Tables} (h : Kept s t) (h' : Kept t u) : Kept s u := by
  intro hlinks
  obtain ⟨hst, ht⟩ := h hlinks
  obtain ⟨htu, hu⟩ := h' ht
  exact ⟨hst.trans htu, hu⟩

section Steps

variable {env : Env} {s t u : Tables} {c c' : Counts}

theorem insertRow_eq_ok {r : Row} :
    insertRow env s r = .ok t ↔ s.has r = false ∧ env.accepts s r = true ∧ t = s.add r := by
  rw [insertRow]
  split
  · next h =>
      constructor
      · intro h'
        cases h'
      · rintro ⟨hhas, haccepts, -⟩
        simp [hhas, haccepts] at h
  · next h =>
      rw [not_or, Bool.not_eq_true, Bool.not_eq_false] at h
      constructor
      · intro h'
        cases h'
        exact ⟨h.1, h.2, rfl⟩
      · rintro ⟨-, -, rfl⟩
        rfl

theorem insertRow_kept {r : Row} (h : insertRow env s r = .ok t) : Kept s t := by
  obtain ⟨-, -, rfl⟩ := insertRow_eq_ok.1 h
  intro hlinks
  refine ⟨.add s r, fun l hl => ?_⟩
  have hl' : l ∈ s.docLinks := by cases r <;> exact hl
  obtain ⟨d, hd, hid⟩ := hlinks l hl'
  exact ⟨d, (Additive.add s r).docs.subset hd, hid⟩

/-- The docs that a row adds. -/
theorem insertRow_docs {r : Row} (hr : ∀ d, r ≠ .doc d) (h : insertRow env s r = .ok t) :
    t.docs = s.docs := by
  obtain ⟨-, -, rfl⟩ := insertRow_eq_ok.1 h
  cases r with
  | doc d => exact absurd rfl (hr d)
  | _ => rfl

/-- A created doc is new, and its links are the only ones from it. -/
theorem createDoc_spec {e : Entry DocRecord} (h : createDoc env s e = .ok t) :
    Kept s t ∧ t.docs = s.docs ++ [created e] ∧ ∀ d ∈ s.docs, d.id ≠ (created e).id := by
  rw [createDoc] at h
  obtain ⟨s', hs', h⟩ := bind_eq_ok.1 h
  cases h
  have hkept := insertRow_kept hs'
  obtain ⟨hhas, -, rfl⟩ := insertRow_eq_ok.1 hs'
  have hnew : ∀ d ∈ s.docs, d.id ≠ (created e).id := by
    intro d hd hid
    have := List.any_eq_false.1 hhas d hd
    simp [hid] at this
  refine ⟨fun hlinks => ?_, rfl, hnew⟩
  obtain ⟨hadd, hlinks'⟩ := hkept hlinks
  have hfilter : (s.docLinks.filter fun l => l.sourceDocId ≠ (created e).id) = s.docLinks := by
    refine List.filter_eq_self.2 fun l hl => ?_
    obtain ⟨d, hd, hid⟩ := hlinks l hl
    simpa [← hid] using hnew d hd
  have hdocLinks : (syncDocLinks env (s.add (.doc (created e))) (created e).id
      (created e).content).docLinks =
        s.docLinks ++ (env.extract (created e).content).map fun t => ⟨(created e).id, t.1, t.2⟩ :=
    congrArg (· ++ _) hfilter
  constructor
  · exact { hadd with docLinks := by rw [hdocLinks]; exact List.prefix_append _ _ }
  · intro l hl
    rw [hdocLinks] at hl
    rcases List.mem_append.1 hl with hl | hl
    · exact hlinks' l hl
    · obtain ⟨-, -, rfl⟩ := List.mem_map.1 hl
      exact ⟨created e, by simp [syncDocLinks, Tables.add], rfl⟩

/-! ### Loops over records -/

variable {α : Type} {known : Tables → α → Bool} {create : Tables → α → Except ImportError Tables}

/-- What every creation of a row keeps, the loop keeps. -/
theorem importRecords_induct {P : Tables → Tables → Prop} (hrefl : ∀ s, P s s)
    (htrans : ∀ s t u, P s t → P t u → P s u)
    (hcreate : ∀ s r t, create s r = .ok t → P s t) {rs : List α}
    (h : importRecords known create s c rs = .ok (t, c')) : P s t := by
  induction rs generalizing s c with
  | nil =>
      cases h
      exact hrefl _
  | cons r rs ih =>
      rw [importRecords] at h
      split at h
      · exact ih h
      · obtain ⟨u, hu, h⟩ := bind_eq_ok.1 h
        exact htrans _ _ _ (hcreate _ _ _ hu) (ih h)

/-- What a step keeps that does not touch the docs. -/
def Beside (s t : Tables) : Prop := Kept s t ∧ t.docs = s.docs

theorem Beside.refl (s : Tables) : Beside s s := ⟨.refl s, rfl⟩

theorem Beside.trans (s t u : Tables) (h : Beside s t) (h' : Beside t u) : Beside s u :=
  ⟨h.1.trans h'.1, h'.2.trans h.2⟩

theorem insertRow_beside {r : Row} (hr : ∀ d, r ≠ .doc d) (h : insertRow env s r = .ok t) :
    Beside s t := ⟨insertRow_kept h, insertRow_docs hr h⟩

theorem importRecords_beside (hcreate : ∀ s r t, create s r = .ok t → Beside s t) {rs : List α}
    (h : importRecords known create s c rs = .ok (t, c')) : Beside s t :=
  importRecords_induct Beside.refl Beside.trans hcreate h

theorem importConnectors_beside {rs : List (Entry ConnectorRecord)}
    (h : importConnectors env s rs = .ok (t, c)) : Beside s t := by
  refine importRecords_beside (fun s e t h => ?_) h
  obtain ⟨u, hu, h⟩ := bind_eq_ok.1 h
  have hut : u = t := by
    cases hactions : env.hasActions { e.record with id := idOr e.record.id e.newId } with
    | none =>
        rw [hactions] at h
        cases h
    | some b =>
        rw [hactions] at h
        cases h
        rfl
  exact hut ▸ insertRow_beside (fun d => by simp) hu

theorem importRunbooks_beside {rs : List RunbookRecord} {steps : List RunbookStepRecord}
    (h : importRunbooks env s rs steps = .ok (t, c)) : Beside s t := by
  refine importRecords_beside (fun s r t h => ?_) h
  obtain ⟨u, hu, h⟩ := bind_eq_ok.1 h
  refine Beside.trans _ _ _ (insertRow_beside (fun d => by simp) hu) ?_
  clear hu
  generalize steps.filter (fun step => step.runbookId = r.id) = todo at h
  induction todo generalizing u with
  | nil =>
      cases h
      exact .refl _
  | cons step todo ih =>
      rw [List.foldlM_cons] at h
      obtain ⟨v, hv, h⟩ := bind_eq_ok.1 h
      exact Beside.trans _ _ _ (insertRow_beside (fun d => by simp) hv) (ih v h)

/-! ### The docs -/

/-- The entries whose doc the store does not have. -/
def newDocs (s : Tables) (rs : List (Entry DocRecord)) : List (Entry DocRecord) :=
  rs.filter fun e => !s.has (.doc e.record)

/-- The row that the import leaves of a new doc. -/
def placed (e : Entry DocRecord) : DocRecord :=
  { created e with parentId := if e.record.id = [] then [] else e.record.parentId }

theorem created_id_ne_nil (e : Entry DocRecord) : (created e).id ≠ [] := by
  show idOr e.record.id e.newId ≠ []
  rw [idOr]
  split
  · exact e.newId.property
  · assumption

theorem created_id {e : Entry DocRecord} (h : e.record.id ≠ []) : (created e).id = e.record.id :=
  if_neg h

theorem createDocs_spec {rs : List (Entry DocRecord)} (h : createDocs env s rs = .ok (t, c)) :
    Kept s t ∧ t.docs = s.docs ++ (newDocs s rs).map created ∧
      ((s.docs.map DocRecord.id).Nodup → (t.docs.map DocRecord.id).Nodup) := by
  have hloop : ∀ (rs : List (Entry DocRecord)) (t₀ : Tables) (c₀ : Counts),
      importRecords (fun _ e => s.has (.doc e.record)) (createDoc env) t₀ c₀ rs = .ok (t, c) →
        Kept t₀ t ∧ t.docs = t₀.docs ++ (newDocs s rs).map created ∧
          ((t₀.docs.map DocRecord.id).Nodup → (t.docs.map DocRecord.id).Nodup) := by
    intro rs
    induction rs with
    | nil =>
        intro t₀ c₀ h
        cases h
        exact ⟨.refl _, by simp [newDocs], id⟩
    | cons e rs ih =>
        intro t₀ c₀ h
        rw [importRecords] at h
        split at h
        · next hknown =>
            obtain ⟨hkept, hdocs, hnodup⟩ := ih _ _ h
            refine ⟨hkept, ?_, hnodup⟩
            rw [hdocs, newDocs, newDocs, List.filter_cons_of_neg (by simp [hknown])]
        · next hknown =>
            obtain ⟨u, hu, h⟩ := bind_eq_ok.1 h
            obtain ⟨hkept', hdocs', hnew⟩ := createDoc_spec hu
            obtain ⟨hkept, hdocs, hnodup⟩ := ih _ _ h
            refine ⟨hkept'.trans hkept, ?_, fun hnodup₀ => hnodup ?_⟩
            · rw [hdocs, hdocs', newDocs, newDocs, List.filter_cons_of_pos (by simp [hknown])]
              simp
            · rw [hdocs', List.map_append, List.nodup_append]
              refine ⟨hnodup₀, List.nodup_singleton _, ?_⟩
              intro id hid id' hid'
              obtain ⟨d, hd, rfl⟩ := List.mem_map.1 hid
              rw [List.map_singleton, List.mem_singleton] at hid'
              exact hid' ▸ hnew d hd
  exact hloop rs s _ h

/-- A row after the loop over the parents. -/
def reparent (s : Tables) (ds : List DocRecord) (r : DocRecord) : DocRecord :=
  ds.foldl (fun r d =>
    if (s.has (.doc d) = false ∧ d.parentId ≠ []) ∧ r.id = d.id then { r with parentId := d.parentId }
    else r) r

theorem setParents_docs {ds : List DocRecord} (h : setParents s t ds = .ok u) :
    u = { t with docs := t.docs.map (reparent s ds) } := by
  induction ds generalizing t with
  | nil =>
      cases h
      show _ = { u with docs := u.docs.map id }
      rw [List.map_id]
  | cons d ds ih =>
      rw [setParents] at h
      split at h
      · next hskip =>
          rw [ih h]
          congr 1
          refine List.map_congr_left fun r _ => ?_
          have hno : ¬ ((s.has (.doc d) = false ∧ d.parentId ≠ []) ∧ r.id = d.id) := by
            rintro ⟨⟨hhas, hne⟩, -⟩
            rcases hskip with h | h
            · rw [hhas] at h
              cases h
            · exact hne h
          rw [reparent, reparent, List.foldl_cons, if_neg hno]
      · next hskip =>
          obtain ⟨v, hv, h⟩ := bind_eq_ok.1 h
          rw [not_or, Bool.not_eq_true] at hskip
          rw [setParent] at hv
          split at hv
          · cases hv
          · cases hv
            rw [ih h, List.map_map]
            congr 1
            refine List.map_congr_left fun r _ => ?_
            simp only [Function.comp, reparent, List.foldl_cons, hskip, ne_eq, not_false_eq_true,
              and_self, true_and]

/-- A row that all updates of its id give the same parent. -/
theorem reparent_eq {ds : List DocRecord} {r : DocRecord} {p : Bytes}
    (hsame : ∀ d ∈ ds, s.has (.doc d) = false → d.parentId ≠ [] → r.id = d.id → d.parentId = p)
    (hsome : r.parentId = p ∨ ∃ d ∈ ds, s.has (.doc d) = false ∧ d.parentId ≠ [] ∧ r.id = d.id) :
    reparent s ds r = { r with parentId := p } := by
  induction ds generalizing r with
  | nil =>
      rcases hsome with rfl | ⟨d, hd, -⟩
      · rfl
      · simp at hd
  | cons d ds ih =>
      rw [reparent, List.foldl_cons]
      split
      · next hmatch =>
          have hp : d.parentId = p := hsame d (by simp) hmatch.1.1 hmatch.1.2 hmatch.2
          exact ih (r := { r with parentId := d.parentId })
            (fun d' hd' => hsame d' (List.mem_cons_of_mem _ hd')) (Or.inl hp)
      · next hmatch =>
          refine ih (fun d' hd' => hsame d' (List.mem_cons_of_mem _ hd')) ?_
          rcases hsome with hp | ⟨d', hd', hhas, hne, hid⟩
          · exact Or.inl hp
          · rcases List.mem_cons.1 hd' with rfl | hd'
            · exact absurd ⟨⟨hhas, hne⟩, hid⟩ hmatch
            · exact Or.inr ⟨d', hd', hhas, hne, hid⟩

theorem mem_newDocs {rs : List (Entry DocRecord)} {e : Entry DocRecord} :
    e ∈ newDocs s rs ↔ e ∈ rs ∧ s.has (.doc e.record) = false := by
  rw [newDocs, List.mem_filter, Bool.not_eq_true']

/-- **Which docs an import leaves**: those of the store, and the new ones of the bundle with their
parents. -/
theorem importDocs_spec {rs : List (Entry DocRecord)} (hunique : (s.docs.map DocRecord.id).Nodup)
    (h : importDocs env s rs = .ok (t, c)) :
    Kept s t ∧ t.docs = s.docs ++ (newDocs s rs).map placed ∧ (t.docs.map DocRecord.id).Nodup := by
  rw [importDocs] at h
  obtain ⟨⟨u, cu⟩, hu, h⟩ := bind_eq_ok.1 h
  obtain ⟨v, hv, h⟩ := bind_eq_ok.1 h
  cases h
  obtain ⟨hkept, hdocs, hnodup⟩ := createDocs_spec hu
  have hunodup := hnodup hunique
  rw [setParents_docs hv]
  have hknown : ∀ r ∈ s.docs, reparent s (rs.map Entry.record) r = r := by
    intro r hr
    refine reparent_eq (fun d _ hhas _ hid => ?_) (Or.inl rfl)
    have := List.any_eq_false.1 hhas r hr
    simp [hid] at this
  have hcreated : ∀ e ∈ newDocs s rs, reparent s (rs.map Entry.record) (created e) = placed e := by
    intro e he
    -- an update of the id of a created doc is one of its own entry
    have hown : ∀ e' ∈ newDocs s rs, (created e).id = e'.record.id → e' = e := by
      intro e' he' hid
      have hne : e'.record.id ≠ [] := hid ▸ created_id_ne_nil e
      have hids : ((newDocs s rs).map fun e => (created e).id).Nodup := by
        rw [hdocs, List.map_append, List.map_map] at hunodup
        exact (List.nodup_append.1 hunodup).2.1
      exact List.inj_on_of_nodup_map hids he' he ((created_id hne).trans hid.symm)
    refine reparent_eq (fun d hd hhas hne hid => ?_) ?_
    · obtain ⟨e', he', rfl⟩ := List.mem_map.1 hd
      obtain rfl := hown e' (mem_newDocs.2 ⟨he', hhas⟩) hid
      rw [if_neg (hid ▸ created_id_ne_nil _)]
    · by_cases hid : e.record.id = []
      · left
        rw [if_pos hid]
        rfl
      · rw [if_neg hid]
        by_cases hparent : e.record.parentId = []
        · left
          rw [hparent]
          rfl
        · right
          obtain ⟨hrs, hhas⟩ := mem_newDocs.1 he
          exact ⟨e.record, List.mem_map_of_mem hrs, hhas, hparent, created_id hid⟩
  have hfinal : u.docs.map (reparent s (rs.map Entry.record)) =
      s.docs ++ (newDocs s rs).map placed := by
    rw [hdocs, List.map_append, List.map_map]
    congr 1
    · exact (List.map_congr_left hknown).trans (List.map_id _)
    · exact List.map_congr_left hcreated
  have hids : ((s.docs ++ (newDocs s rs).map placed).map DocRecord.id) = u.docs.map DocRecord.id := by
    rw [hdocs, List.map_append, List.map_append, List.map_map, List.map_map]
    rfl
  refine ⟨fun hlinks => ?_, hfinal, ?_⟩
  · obtain ⟨hadd, hlinks'⟩ := hkept hlinks
    refine ⟨{ hadd with docs := ?_ }, fun l hl => ?_⟩
    · rw [show (Tables.docs { u with docs := u.docs.map (reparent s (rs.map Entry.record)) }) = _ from
        hfinal]
      exact List.prefix_append _ _
    · obtain ⟨d, hd, hid⟩ := hlinks' l hl
      have hmem : d.id ∈ (u.docs.map (reparent s (rs.map Entry.record))).map DocRecord.id := by
        rw [hfinal, hids]
        exact List.mem_map_of_mem hd
      obtain ⟨d', hd', hid'⟩ := List.mem_map.1 hmem
      exact ⟨d', hd', hid'.trans hid⟩
  · show ((u.docs.map (reparent s (rs.map Entry.record))).map DocRecord.id).Nodup
    rw [hfinal, hids]
    exact hunodup

/-- **An import only adds rows**, and the docs it adds are the new ones of the bundle. -/
theorem importBundle_additive {b : Bundle} {res : Result}
    (hunique : (s.docs.map DocRecord.id).Nodup) (hlinks : LinksOk s)
    (h : importBundle env s b = .ok (t, res)) :
    Additive s t ∧ LinksOk t ∧ t.docs = s.docs ++ (newDocs s b.docs).map placed ∧
      (t.docs.map DocRecord.id).Nodup := by
  rw [importBundle] at h
  obtain ⟨⟨s₁, c₁⟩, h₁, h⟩ := bind_eq_ok.1 h
  obtain ⟨⟨s₂, c₂⟩, h₂, h⟩ := bind_eq_ok.1 h
  obtain ⟨⟨s₃, c₃⟩, h₃, h⟩ := bind_eq_ok.1 h
  obtain ⟨⟨s₄, c₄⟩, h₄, h⟩ := bind_eq_ok.1 h
  obtain ⟨⟨s₅, c₅⟩, h₅, h⟩ := bind_eq_ok.1 h
  obtain ⟨⟨s₆, c₆⟩, h₆, h⟩ := bind_eq_ok.1 h
  obtain ⟨⟨s₇, c₇⟩, h₇, h⟩ := bind_eq_ok.1 h
  obtain ⟨⟨s₈, c₈⟩, h₈, h⟩ := bind_eq_ok.1 h
  obtain ⟨⟨s₉, c₉⟩, h₉, h⟩ := bind_eq_ok.1 h
  cases h
  have hbefore : Beside s s₃ :=
    (importConnectors_beside h₁).trans _ _ _ <| Beside.trans _ _ _
      (importRecords_beside (fun _ _ _ h => insertRow_beside (fun d => by simp) h) h₂)
      (importRecords_beside (fun _ _ _ h => insertRow_beside (fun d => by simp) h) h₃)
  have hafter : Beside s₄ t :=
    Beside.trans _ _ _
      (importRecords_beside (fun _ _ _ h => insertRow_beside (fun d => by simp) h) h₅) <|
    Beside.trans _ _ _
      (importRecords_beside (fun _ _ _ h => insertRow_beside (fun d => by simp) h) h₆) <|
    Beside.trans _ _ _
      (importRecords_beside (fun _ _ _ h => insertRow_beside (fun d => by simp) h) h₇) <|
    Beside.trans _ _ _
      (importRecords_beside (fun _ _ _ h => insertRow_beside (fun d => by simp) h) h₈)
      (importRunbooks_beside h₉)
  obtain ⟨hkept, hdocs, hnodup⟩ := importDocs_spec (hbefore.2 ▸ hunique) h₄
  have hnews : newDocs s₃ b.docs = newDocs s b.docs := by
    rw [newDocs, newDocs]
    simp only [Tables.has, hbefore.2]
  obtain ⟨hadd, hlinks'⟩ := (hbefore.1.trans (hkept.trans hafter.1)) hlinks
  refine ⟨hadd, hlinks', ?_, hafter.2 ▸ hnodup⟩
  rw [hafter.2, hdocs, hnews, hbefore.2]

end Steps

end WiseLabz.Backup
