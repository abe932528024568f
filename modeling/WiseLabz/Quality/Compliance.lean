/-
**The findings of a compliance rule and their notifications.**

Each entity that violates a rule has a finding of its own, while a rule notifies at most once for an
evaluation.  The severity that was announced is kept with each open finding and goes when the
finding is resolved.

Main definitions:

* `Quality.Finding` — a row of the findings table;
* `Quality.upsertQualityFinding`, `Quality.resolveExceptEntities` — the writes to the table;
* `Quality.evaluateComplianceRule` — **one evaluation of a rule on a connector**;
* `Quality.FindingsOk` — the constraints of the table;
* `Quality.Announced` — an open finding for which a severity was announced;
* `Quality.announcedLevel` — the level at which an entity has been announced, from the calls alone.

Main results:

* `Quality.evaluate_spec` — what one evaluation does to the findings and their announced severities;
* `Quality.announced_of_run` — an open finding carries the level of its entity;
* `Quality.compliance_findings` — **the findings follow the rule, and between two notifications
  whose severity did not increase** there is a call that matches no entity announced at such a
  level;
* `Quality.renotified_after_turnover` — other entities may have taken over by then.
-/

import WiseLabz.Lib.Bytes
import WiseLabz.Lib.Machine
import Mathlib.Data.List.Nodup

set_option relaxedAutoImplicit false
set_option autoImplicit false

namespace WiseLabz.Quality

open Lib

/-! ### Findings -/

/-- A row of the findings table; an empty text stands for NULL. -/
structure Finding where
  id : Bytes
  connectorId : Bytes
  checkType : Bytes
  ruleId : Bytes
  entityKind : Bytes
  entityRef : Bytes
  severity : Bytes
  title : Bytes
  description : Bytes
  remediationLink : Bytes
  isOpen : Bool
  detectedCount : ℕ
  notifiedSeverity : Bytes
  deriving DecidableEq, Repr

/-- The columns of the unique index on the open findings. -/
structure FindingKey where
  connectorId : Bytes
  checkType : Bytes
  ruleId : Bytes
  entityKind : Bytes
  entityRef : Bytes
  deriving DecidableEq, Repr

def Finding.key (f : Finding) : FindingKey :=
  ⟨f.connectorId, f.checkType, f.ruleId, f.entityKind, f.entityRef⟩

/-- A finding that is detected again. -/
def Finding.detected (f r : Finding) : Finding :=
  { r with
    detectedCount := r.detectedCount + 1
    severity := f.severity
    title := f.title
    description := f.description
    remediationLink := f.remediationLink }

/-- **`UpsertQualityFinding`**: the open finding under the key is updated, or a new one is inserted,
whose id must be new.  The finding is returned with the id and the announced severity of its row. -/
def upsertQualityFinding (fs : List Finding) (f : Finding) : Option (List Finding × Finding) :=
  match fs.find? fun r => r.isOpen && r.key = f.key with
  | some r =>
      some (fs.map fun r' => if r'.isOpen ∧ r'.key = f.key then f.detected r' else r',
        { f with id := r.id, notifiedSeverity := r.notifiedSeverity })
  | none =>
      if fs.any fun r => r.id = f.id then none
      else
        some (fs ++ [{ f with isOpen := true, detectedCount := 1, notifiedSeverity := [] }],
          { f with notifiedSeverity := [] })

/-- `SetQualityFindingNotifiedSeverity`. -/
def setNotifiedSeverity (fs : List Finding) (id severity : Bytes) : List Finding :=
  fs.map fun r => if r.id = id then { r with notifiedSeverity := severity } else r

def Finding.resolved (r : Finding) : Finding := { r with isOpen := false, notifiedSeverity := [] }

/-- The open findings of a rule on a connector. -/
def Finding.ofRule (connectorID ruleID : Bytes) (r : Finding) : Prop :=
  r.connectorId = connectorID ∧ r.ruleId = ruleID ∧ r.isOpen = true

instance (connectorID ruleID : Bytes) (r : Finding) : Decidable (r.ofRule connectorID ruleID) :=
  inferInstanceAs (Decidable (_ ∧ _))

/-- `ResolveQualityFindingForRule`. -/
def resolveForRule (fs : List Finding) (connectorID ruleID : Bytes) : List Finding :=
  fs.map fun r => if r.ofRule connectorID ruleID then r.resolved else r

/-- The text under which the entities to keep are looked up. -/
def keepKey (kind ref : Bytes) : Bytes := kind ++ 0 :: ref

/-- `staleQualityFindingIDs`. -/
def staleFindingIDs (fs : List Finding) (connectorID ruleID : Bytes) (keep : List (Bytes × Bytes)) :
    List Bytes :=
  (fs.filter fun r => r.ofRule connectorID ruleID ∧ (r.entityKind = [] ∨ r.entityRef = [] ∨
    keepKey r.entityKind r.entityRef ∉ keep.map fun k => keepKey k.1 k.2)).map Finding.id

/-- **`ResolveQualityFindingsForRuleExceptEntities`.** -/
def resolveExceptEntities (fs : List Finding) (connectorID ruleID : Bytes)
    (keep : List (Bytes × Bytes)) : List Finding :=
  fs.map fun r => if r.id ∈ staleFindingIDs fs connectorID ruleID keep then r.resolved else r

/-! ### One evaluation -/

/-- `severityRank`, with the zero value for a severity that is not in the map. -/
def severityRank (severity : Bytes) : ℤ :=
  if severity = bytes "warning" then 1 else if severity = bytes "critical" then 2 else 0

/-- `findingRank`: never notified is below every severity. -/
def findingRank (severity : Bytes) : ℤ :=
  if severity ∈ [bytes "info", bytes "warning", bytes "critical"] then severityRank severity else -1

/-- `ruleNotifiedRank`. -/
def ruleNotifiedRank (fs : List Finding) (connectorID ruleID : Bytes) : ℤ :=
  ((fs.filter fun r => r.ofRule connectorID ruleID ∧ r.notifiedSeverity ≠ []).map fun r =>
    findingRank r.notifiedSeverity).foldl max (-1)

/-- An entity that violates a rule, with the UUID that is drawn for its finding. -/
structure Match where
  kind : Bytes
  externalID : Bytes
  name : Bytes
  newId : Bytes
  deriving DecidableEq, Repr

/-- `complianceEntityRef`. -/
def Match.ref (e : Match) : Bytes := if e.externalID ≠ [] then e.externalID else e.name

structure Rule where
  id : Bytes
  severity : Bytes
  title : Bytes
  remediationLink : Bytes
  deriving DecidableEq, Repr

/-- The finding of an entity; `complianceDescription` of one entity is its name. -/
def Match.finding (connectorID : Bytes) (rule : Rule) (e : Match) : Finding where
  id := e.newId
  connectorId := connectorID
  checkType := bytes "compliance"
  ruleId := rule.id
  entityKind := e.kind
  entityRef := e.ref
  severity := rule.severity
  title := rule.title
  description := bytes "Violating entities: " ++ e.name ++ bytes "."
  remediationLink := rule.remediationLink
  isOpen := true
  detectedCount := 1
  notifiedSeverity := []

/-- The loop that writes a finding for each match. -/
def upsertMatches (connectorID : Bytes) (rule : Rule) (fs : List Finding) :
    List Match → Option (List Finding × List Finding)
  | [] => some (fs, [])
  | e :: es => do
      let (fs, f) ← upsertQualityFinding fs (e.finding connectorID rule)
      let (fs, upserted) ← upsertMatches connectorID rule fs es
      return (fs, f :: upserted)

/-- `maybeNotify`: the table, and whether it notifies. -/
def maybeNotify (fs : List Finding) (f : Finding) : List Finding × Bool :=
  if f.notifiedSeverity ≠ [] ∧ severityRank f.severity ≤ severityRank f.notifiedSeverity then
    (fs, false)
  else (setNotifiedSeverity fs f.id f.severity, true)

/-- The loop that marks findings as covered. -/
def cover (fs : List Finding) (upserted : List Finding) : List Finding :=
  upserted.foldl (fun fs f =>
    if findingRank f.severity ≤ findingRank f.notifiedSeverity then fs
    else setNotifiedSeverity fs f.id f.severity) fs

/-- Whether a finding may notify when `notified` was announced already. -/
def mayNotify (notified : ℤ) (f : Finding) : Bool :=
  max notified (findingRank f.notifiedSeverity) < findingRank f.severity

/-- The first finding that may notify does, and the others are covered: the table, and the severity
that is announced. -/
def announce (notified : ℤ) (fs upserted : List Finding) : List Finding × Option Bytes :=
  match upserted.dropWhile fun f => !mayNotify notified f with
  | [] => (cover fs upserted, none)
  | f :: rest =>
      (cover (maybeNotify fs f).1 ((upserted.takeWhile fun f => !mayNotify notified f) ++ rest),
        if (maybeNotify fs f).2 then some f.severity else none)

/-- **`evaluateComplianceRule`**, with a usable snapshot: the table and the severity that is
announced, if any, after an evaluation with these matches; a rule that is skipped has none. -/
def evaluateComplianceRule (notifier : Bool) (connectorID : Bytes) (rule : Rule)
    (fs : List Finding) (ms : List Match) : Option (List Finding × Option Bytes) :=
  if ms = [] then some (resolveForRule fs connectorID rule.id, none)
  else do
    let fs := resolveExceptEntities fs connectorID rule.id (ms.map fun e => (e.kind, e.ref))
    let notified := ruleNotifiedRank fs connectorID rule.id
    let (fs, upserted) ← upsertMatches connectorID rule fs ms
    if notifier then return announce notified fs upserted else return (fs, none)

/-! ### The constraints of the table -/

/-- **The constraints of the table**: ids are a key, an open finding has its key alone, findings
with a rule are compliance findings, the kind of an open one has no zero byte, and what was
announced is a severity. -/
structure FindingsOk (fs : List Finding) : Prop where
  ids : (fs.map Finding.id).Nodup
  keys : ∀ r ∈ fs, ∀ r' ∈ fs, r.isOpen = true → r'.isOpen = true → r.key = r'.key → r = r'
  compliance : ∀ r ∈ fs, r.ruleId ≠ [] → r.checkType = bytes "compliance"
  kinds : ∀ r ∈ fs, r.isOpen = true → r.ruleId ≠ [] → (0 : UInt8) ∉ r.entityKind
  levels : ∀ r ∈ fs, r.notifiedSeverity = [] ∨ 0 ≤ findingRank r.notifiedSeverity

/-- The rows of a table after an update of some columns that are not in the key. -/
theorem FindingsOk.map {fs : List Finding} (h : FindingsOk fs) {g : Finding → Finding}
    (hid : ∀ r, (g r).id = r.id) (hkey : ∀ r, (g r).key = r.key)
    (hopen : ∀ r, (g r).isOpen = true → r.isOpen = true)
    (hlevel : ∀ r, (g r).notifiedSeverity = r.notifiedSeverity ∨ (g r).notifiedSeverity = [] ∨
      0 ≤ findingRank (g r).notifiedSeverity) : FindingsOk (fs.map g) := by
  have hruleId : ∀ r, (g r).ruleId = r.ruleId := fun r => congrArg FindingKey.ruleId (hkey r)
  constructor
  · rw [List.map_map, show Finding.id ∘ g = Finding.id from funext hid]
    exact h.ids
  · intro r hr r' hr' ho ho' heq
    obtain ⟨a, ha, rfl⟩ := List.mem_map.1 hr
    obtain ⟨b, hb, rfl⟩ := List.mem_map.1 hr'
    rw [hkey, hkey] at heq
    rw [h.keys a ha b hb (hopen a ho) (hopen b ho') heq]
  · intro r hr hrule
    obtain ⟨a, ha, rfl⟩ := List.mem_map.1 hr
    rw [show (g a).checkType = a.checkType from congrArg FindingKey.checkType (hkey a)]
    exact h.compliance a ha (hruleId a ▸ hrule)
  · intro r hr ho hrule
    obtain ⟨a, ha, rfl⟩ := List.mem_map.1 hr
    rw [show (g a).entityKind = a.entityKind from congrArg FindingKey.entityKind (hkey a)]
    exact h.kinds a ha (hopen a ho) (hruleId a ▸ hrule)
  · intro r hr
    obtain ⟨a, ha, rfl⟩ := List.mem_map.1 hr
    rcases hlevel a with hsame | hknown
    · exact hsame ▸ h.levels a ha
    · exact hknown

/-- A finding that is inserted. -/
theorem FindingsOk.insert {fs : List Finding} (h : FindingsOk fs) {f : Finding}
    (hid : ∀ r ∈ fs, r.id ≠ f.id) (hkey : ∀ r ∈ fs, r.isOpen = true → r.key ≠ f.key)
    (hcheck : f.checkType = bytes "compliance") (hkind : (0 : UInt8) ∉ f.entityKind)
    (hlevel : f.notifiedSeverity = []) : FindingsOk (fs ++ [f]) := by
  constructor
  · rw [List.map_append, List.nodup_append]
    refine ⟨h.ids, List.nodup_singleton _, ?_⟩
    intro a ha b hb
    obtain ⟨r, hr, rfl⟩ := List.mem_map.1 ha
    rw [List.map_singleton, List.mem_singleton] at hb
    exact hb ▸ hid r hr
  · intro r hr r' hr' ho ho' heq
    rcases List.mem_append.1 hr with hr | hr <;> rcases List.mem_append.1 hr' with hr' | hr'
    · exact h.keys r hr r' hr' ho ho' heq
    · rw [List.mem_singleton.1 hr'] at heq
      exact absurd heq (hkey r hr ho)
    · rw [List.mem_singleton.1 hr] at heq
      exact absurd heq.symm (hkey r' hr' ho')
    · rw [List.mem_singleton.1 hr, List.mem_singleton.1 hr']
  · intro r hr hrule
    rcases List.mem_append.1 hr with hr | hr
    · exact h.compliance r hr hrule
    · rw [List.mem_singleton.1 hr, hcheck]
  · intro r hr ho hrule
    rcases List.mem_append.1 hr with hr | hr
    · exact h.kinds r hr ho hrule
    · rw [List.mem_singleton.1 hr]
      exact hkind
  · intro r hr
    rcases List.mem_append.1 hr with hr | hr
    · exact h.levels r hr
    · exact Or.inl (List.mem_singleton.1 hr ▸ hlevel)

/-- **An open finding for which a severity of at least this rank was announced.** -/
def Announced (fs : List Finding) (key : FindingKey) (rank : ℤ) : Prop :=
  ∃ r ∈ fs, r.isOpen = true ∧ r.key = key ∧ rank ≤ findingRank r.notifiedSeverity

/-- The key of the finding of a match. -/
def Match.key (connectorID ruleID : Bytes) (e : Match) : FindingKey :=
  ⟨connectorID, bytes "compliance", ruleID, e.kind, e.ref⟩

/-- The kind of the entity has no zero byte, which ends the kind where findings are looked up. -/
def Match.Ok (e : Match) : Prop := (0 : UInt8) ∉ e.kind

instance (e : Match) : Decidable e.Ok := inferInstanceAs (Decidable ((0 : UInt8) ∉ e.kind))

/-- The entity has a kind and a reference: else its finding is resolved by every call. -/
def Match.Named (e : Match) : Prop := e.kind ≠ [] ∧ e.ref ≠ []

section Evaluation

variable {fs t : List Finding} {connectorID ruleID : Bytes}

/-! ### Resolved findings -/

theorem keepKey_inj {kind kind' ref ref' : Bytes} (hkind : (0 : UInt8) ∉ kind)
    (hkind' : (0 : UInt8) ∉ kind') (h : keepKey kind ref = keepKey kind' ref') :
    kind = kind' ∧ ref = ref' := by
  unfold keepKey at h
  induction kind generalizing kind' with
  | nil =>
      cases kind' with
      | nil => exact ⟨rfl, (List.cons.inj h).2⟩
      | cons b kind' =>
          rw [List.nil_append, List.cons_append] at h
          exact absurd ((List.cons.inj h).1 ▸ List.mem_cons_self) hkind'
  | cons b kind ih =>
      cases kind' with
      | nil =>
          rw [List.nil_append, List.cons_append] at h
          exact absurd ((List.cons.inj h).1 ▸ List.mem_cons_self) hkind
      | cons b' kind' =>
          rw [List.cons_append, List.cons_append] at h
          obtain ⟨rfl, htail⟩ := List.cons.inj h
          rw [List.mem_cons, not_or] at hkind hkind'
          obtain ⟨rfl, rfl⟩ := ih hkind.2 hkind'.2 htail
          exact ⟨rfl, rfl⟩

theorem mem_staleFindingIDs (h : FindingsOk fs) {keep : List (Bytes × Bytes)} {r : Finding}
    (hr : r ∈ fs) : r.id ∈ staleFindingIDs fs connectorID ruleID keep ↔
      r.ofRule connectorID ruleID ∧ (r.entityKind = [] ∨ r.entityRef = [] ∨
        keepKey r.entityKind r.entityRef ∉ keep.map fun k => keepKey k.1 k.2) := by
  rw [staleFindingIDs, List.mem_map]
  constructor
  · rintro ⟨r', hr', hid⟩
    obtain ⟨hmem, hstale⟩ := List.mem_filter.1 hr'
    rw [List.inj_on_of_nodup_map h.ids hmem hr hid] at hstale
    exact of_decide_eq_true hstale
  · intro hstale
    exact ⟨r, List.mem_filter.2 ⟨hr, decide_eq_true hstale⟩, rfl⟩

theorem FindingsOk.resolveExcept (h : FindingsOk fs) (keep : List (Bytes × Bytes)) :
    FindingsOk (resolveExceptEntities fs connectorID ruleID keep) := by
  refine h.map ?_ ?_ ?_ ?_ <;> intro r <;> split
  · rfl
  · rfl
  · rfl
  · rfl
  · intro ho
    cases ho
  · exact id
  · exact Or.inr (Or.inl rfl)
  · exact Or.inl rfl

theorem FindingsOk.resolveForRule (h : FindingsOk fs) :
    FindingsOk (resolveForRule fs connectorID ruleID) := by
  refine h.map ?_ ?_ ?_ ?_ <;> intro r <;> split
  · rfl
  · rfl
  · rfl
  · rfl
  · intro ho
    cases ho
  · exact id
  · exact Or.inr (Or.inl rfl)
  · exact Or.inl rfl

/-- The findings of the rule that stay open are those of the entities to keep. -/
theorem resolveExcept_open (h : FindingsOk fs) (hrule : ruleID ≠ []) {keep : List (Bytes × Bytes)}
    (hkeep : ∀ k ∈ keep, (0 : UInt8) ∉ k.1) {r : Finding}
    (hr : r ∈ resolveExceptEntities fs connectorID ruleID keep) (ho : r.ofRule connectorID ruleID) :
    (r.entityKind, r.entityRef) ∈ keep := by
  obtain ⟨a, ha, rfl⟩ := List.mem_map.1 hr
  split at ho
  · cases ho.2.2
  · next hstale =>
      rw [if_neg hstale]
      rw [mem_staleFindingIDs h ha, not_and] at hstale
      have hkept := hstale ho
      rw [not_or, not_or, not_not] at hkept
      obtain ⟨k, hk, heq⟩ := List.mem_map.1 hkept.2.2
      have hclean := h.kinds a ha ho.2.2 (ho.2.1 ▸ hrule)
      obtain ⟨hkind, href⟩ := keepKey_inj (hkeep k hk) hclean heq
      exact hkind ▸ href ▸ hk

theorem resolveExcept_announced (h : FindingsOk fs) {ms : List Match} {e : Match} (he : e ∈ ms)
    (hnamed : e.Named) {rank : ℤ} (ha : Announced fs (e.key connectorID ruleID) rank) :
    Announced (resolveExceptEntities fs connectorID ruleID (ms.map fun e => (e.kind, e.ref)))
      (e.key connectorID ruleID) rank := by
  obtain ⟨r, hr, ho, hkey, hrank⟩ := ha
  have hkind : r.entityKind = e.kind := congrArg FindingKey.entityKind hkey
  have href : r.entityRef = e.ref := congrArg FindingKey.entityRef hkey
  refine ⟨r, List.mem_map.2 ⟨r, hr, if_neg ?_⟩, ho, hkey, hrank⟩
  rw [mem_staleFindingIDs h hr, hkind, href]
  rintro ⟨-, hnil | hnil | hmem⟩
  · exact hnamed.1 hnil
  · exact hnamed.2 hnil
  · refine hmem (List.mem_map.2 ⟨(e.kind, e.ref), ?_, rfl⟩)
    exact List.mem_map.2 ⟨e, he, rfl⟩

/-! ### Written findings -/

/-- **What writing a finding leaves**: the row of its key, and the other open ones as they were. -/
theorem upsertQualityFinding_spec (h : FindingsOk fs) {f f' : Finding}
    (hcheck : f.checkType = bytes "compliance") (hkind : (0 : UInt8) ∉ f.entityKind)
    (hup : upsertQualityFinding fs f = some (t, f')) :
    FindingsOk t ∧ f'.severity = f.severity ∧
      (∃ r ∈ t, r.isOpen = true ∧ r.key = f.key ∧ r.severity = f.severity ∧ r.id = f'.id ∧
        r.notifiedSeverity = f'.notifiedSeverity) ∧
      (∀ r ∈ t, r.isOpen = true → r.key = f.key ∨ r ∈ fs) ∧
      ∀ r ∈ fs, r.isOpen = true → ∃ r' ∈ t, r'.isOpen = true ∧ r'.key = r.key ∧ r'.id = r.id ∧
        r'.notifiedSeverity = r.notifiedSeverity ∧
          (r.severity = f.severity → r'.severity = f.severity) := by
  rw [upsertQualityFinding] at hup
  cases hfind : fs.find? fun r => r.isOpen && r.key = f.key with
  | some r =>
      rw [hfind] at hup
      obtain ⟨rfl, rfl⟩ := Prod.mk.inj (Option.some.inj hup)
      have hr := List.mem_of_find?_eq_some hfind
      have hmatch : r.isOpen = true ∧ r.key = f.key := by simpa using List.find?_some hfind
      refine ⟨?_, rfl, ⟨f.detected r, ?_, hmatch.1, hmatch.2, rfl, rfl, rfl⟩, ?_, ?_⟩
      · refine h.map ?_ ?_ ?_ ?_ <;> intro r <;> split
        · rfl
        · rfl
        · rfl
        · rfl
        · exact id
        · exact id
        · exact Or.inl rfl
        · exact Or.inl rfl
      · exact List.mem_map.2 ⟨r, hr, if_pos hmatch⟩
      · intro r' hr' ho
        obtain ⟨a, ha, rfl⟩ := List.mem_map.1 hr'
        split
        · next hdetected => exact Or.inl hdetected.2
        · exact Or.inr ha
      · intro a ha ho
        refine ⟨_, List.mem_map_of_mem ha, ?_⟩
        split
        · exact ⟨ho, rfl, rfl, rfl, fun _ => rfl⟩
        · exact ⟨ho, rfl, rfl, rfl, id⟩
  | none =>
      rw [hfind] at hup
      dsimp only at hup
      split at hup
      · cases hup
      · next hnew =>
          obtain ⟨rfl, rfl⟩ := Prod.mk.inj (Option.some.inj hup)
          rw [Bool.not_eq_true] at hnew
          refine ⟨h.insert ?_ ?_ hcheck hkind rfl, rfl, ⟨_, List.mem_append_right _
            (List.mem_singleton.2 rfl), rfl, rfl, rfl, rfl, rfl⟩, ?_, ?_⟩
          · intro r hr
            simpa using List.any_eq_false.1 hnew r hr
          · intro r hr ho hkey
            have hnone := List.find?_eq_none.1 hfind r hr
            have hkey' : r.key = f.key := hkey
            simp [ho, hkey'] at hnone
          · intro r hr _
            rcases List.mem_append.1 hr with hr | hr
            · exact Or.inr hr
            · rw [List.mem_singleton.1 hr]
              exact Or.inl rfl
          · intro r hr ho
            exact ⟨r, List.mem_append_left _ hr, ho, rfl, rfl, rfl, id⟩

/-- **What the loop over the matches leaves.** -/
theorem upsertMatches_spec {rule : Rule} {ms : List Match} (hms : ∀ e ∈ ms, e.Ok)
    {upserted : List Finding} (h : FindingsOk fs)
    (hup : upsertMatches connectorID rule fs ms = some (t, upserted)) :
    FindingsOk t ∧
      (∀ r ∈ fs, r.isOpen = true → ∃ r' ∈ t, r'.isOpen = true ∧ r'.key = r.key ∧ r'.id = r.id ∧
        r'.notifiedSeverity = r.notifiedSeverity ∧
          (r.severity = rule.severity → r'.severity = rule.severity)) ∧
      (∀ r ∈ t, r.isOpen = true → (∃ e ∈ ms, r.key = e.key connectorID rule.id) ∨ r ∈ fs) ∧
      (∀ e ∈ ms, ∃ f ∈ upserted, ∃ r ∈ t, r.isOpen = true ∧ r.key = e.key connectorID rule.id ∧
        r.id = f.id ∧ r.severity = rule.severity) ∧
      ∀ f ∈ upserted, f.severity = rule.severity ∧
        ∃ r ∈ t, r.id = f.id ∧ r.notifiedSeverity = f.notifiedSeverity := by
  induction ms generalizing fs upserted with
  | nil =>
      obtain ⟨rfl, rfl⟩ := Prod.mk.inj (Option.some.inj hup)
      refine ⟨h, fun r hr ho => ⟨r, hr, ho, rfl, rfl, rfl, id⟩, fun r hr _ => Or.inr hr, ?_, ?_⟩
      · simp
      · simp
  | cons e es ih =>
      rw [upsertMatches] at hup
      obtain ⟨⟨u, f⟩, hf, hup⟩ := Option.bind_eq_some_iff.1 hup
      obtain ⟨⟨v, fs'⟩, hrest, hup⟩ := Option.bind_eq_some_iff.1 hup
      obtain ⟨rfl, rfl⟩ := Prod.mk.inj (Option.some.inj hup)
      have hkind : (0 : UInt8) ∉ (e.finding connectorID rule).entityKind := hms e (by simp)
      obtain ⟨hu, hsev, ⟨r₀, hr₀, ho₀, hkey₀, hsev₀, hid₀, hnot₀⟩, hback, hforth⟩ :=
        upsertQualityFinding_spec h rfl hkind hf
      obtain ⟨ht, hforth', hback', hmatched, hupserted⟩ :=
        ih (fun e he => hms e (List.mem_cons_of_mem _ he)) hu hrest
      refine ⟨ht, ?_, ?_, ?_, ?_⟩
      · intro r hr ho
        obtain ⟨r', hr', ho', hkey', hid', hnot', hsev'⟩ := hforth r hr ho
        obtain ⟨r'', hr'', ho'', hkey'', hid'', hnot'', hsev''⟩ := hforth' r' hr' ho'
        exact ⟨r'', hr'', ho'', hkey''.trans hkey', hid''.trans hid', hnot''.trans hnot',
          fun hs => hsev'' (hsev' hs)⟩
      · intro r hr ho
        rcases hback' r hr ho with ⟨e', he', hkey⟩ | hr
        · exact Or.inl ⟨e', List.mem_cons_of_mem _ he', hkey⟩
        · rcases hback r hr ho with hkey | hr
          · exact Or.inl ⟨e, by simp, hkey⟩
          · exact Or.inr hr
      · intro e' he'
        rcases List.mem_cons.1 he' with rfl | he'
        · obtain ⟨r', hr', ho', hkey', hid', -, hsev'⟩ := hforth' r₀ hr₀ ho₀
          exact ⟨f, by simp, r', hr', ho', hkey'.trans hkey₀, hid'.trans hid₀, hsev' hsev₀⟩
        · obtain ⟨f', hf', hrow⟩ := hmatched e' he'
          exact ⟨f', List.mem_cons_of_mem _ hf', hrow⟩
      · intro f' hf'
        rcases List.mem_cons.1 hf' with rfl | hf'
        · obtain ⟨r', hr', -, -, hid', hnot', -⟩ := hforth' r₀ hr₀ ho₀
          exact ⟨hsev, r', hr', hid'.trans hid₀, hnot'.trans hnot₀⟩
        · exact hupserted f' hf'

/-! ### Announced severities -/

theorem neg_one_le_findingRank (severity : Bytes) : -1 ≤ findingRank severity := by
  unfold findingRank severityRank
  split_ifs <;> omega

/-- The two orders of severities agree on what was announced. -/
theorem severityRank_lt {severity notified : Bytes}
    (hnotified : notified = [] ∨ 0 ≤ findingRank notified)
    (hlt : findingRank notified < findingRank severity) (hne : notified ≠ []) :
    severityRank notified < severityRank severity := by
  have hle := hnotified.resolve_left hne
  rw [findingRank] at hle hlt
  rw [findingRank] at hlt
  split_ifs at hle hlt with hknown hsev
  · exact hlt
  · omega
  · exact absurd hle (by decide)
  · exact absurd hle (by decide)

/-- The rows after updates of announced severities. -/
def Marked (fs t : List Finding) : Prop :=
  ∃ g : Finding → Finding, t = fs.map g ∧ ∀ r, (g r).id = r.id ∧ (g r).key = r.key ∧
    (g r).isOpen = r.isOpen ∧ (g r).severity = r.severity ∧
      ((g r).notifiedSeverity = r.notifiedSeverity ∨ 0 ≤ findingRank (g r).notifiedSeverity)

theorem Marked.refl (fs : List Finding) : Marked fs fs :=
  ⟨id, (List.map_id _).symm, fun _ => ⟨rfl, rfl, rfl, rfl, Or.inl rfl⟩⟩

theorem Marked.trans {u : List Finding} (h : Marked fs t) (h' : Marked t u) : Marked fs u := by
  obtain ⟨g, rfl, hg⟩ := h
  obtain ⟨g', rfl, hg'⟩ := h'
  refine ⟨g' ∘ g, List.map_map, fun r => ?_⟩
  obtain ⟨hid, hkey, hopen, hsev, hlevel⟩ := hg r
  obtain ⟨hid', hkey', hopen', hsev', hlevel'⟩ := hg' (g r)
  refine ⟨hid'.trans hid, hkey'.trans hkey, hopen'.trans hopen, hsev'.trans hsev, ?_⟩
  rcases hlevel' with hsame | hknown
  · rw [Function.comp_apply, hsame]
    exact hlevel
  · exact Or.inr hknown

theorem setNotifiedSeverity_marked (fs : List Finding) (id : Bytes) {severity : Bytes}
    (hknown : 0 ≤ findingRank severity) : Marked fs (setNotifiedSeverity fs id severity) := by
  refine ⟨_, rfl, fun r => ?_⟩
  split
  · exact ⟨rfl, rfl, rfl, rfl, Or.inr hknown⟩
  · exact ⟨rfl, rfl, rfl, rfl, Or.inl rfl⟩

theorem FindingsOk.marked (h : FindingsOk fs) (ht : Marked fs t) : FindingsOk t := by
  obtain ⟨g, rfl, hg⟩ := ht
  refine h.map (fun r => (hg r).1) (fun r => (hg r).2.1) (fun r ho => (hg r).2.2.1 ▸ ho) fun r => ?_
  exact (hg r).2.2.2.2.imp_right Or.inr

/-- The rows of the findings `l`, which all have one severity, have their announced severities or
that one. -/
def Covering (severity : Bytes) (fs l : List Finding) : Prop :=
  ∀ f ∈ l, f.severity = severity ∧ ∀ r ∈ fs, r.id = f.id →
    r.notifiedSeverity = f.notifiedSeverity ∨ r.notifiedSeverity = severity

section Severity

variable {severity : Bytes} {l : List Finding} {f : Finding}

theorem Covering.set (h : Covering severity fs l) (id : Bytes) :
    Covering severity (setNotifiedSeverity fs id severity) l := by
  intro f hf
  refine ⟨(h f hf).1, fun r hr hid => ?_⟩
  obtain ⟨a, ha, rfl⟩ := List.mem_map.1 hr
  split
  · exact Or.inr rfl
  · next hne =>
      rw [if_neg hne] at hid
      exact (h f hf).2 a ha hid

/-- A severity that is set only above the announced ones takes none back. -/
theorem Announced.set (h : Covering severity fs l) (hf : f ∈ l)
    (hrank : findingRank f.notifiedSeverity ≤ findingRank severity) {key : FindingKey} {rank : ℤ}
    (ha : Announced fs key rank) : Announced (setNotifiedSeverity fs f.id severity) key rank := by
  obtain ⟨r, hr, ho, hkey, hle⟩ := ha
  refine ⟨_, List.mem_map_of_mem hr, ?_⟩
  split
  · next hid =>
      refine ⟨ho, hkey, hle.trans ?_⟩
      rcases (h f hf).2 r hr hid with hsame | hsame
      · rw [hsame]
        exact hrank
      · exact (congrArg findingRank hsame).le
  · exact ⟨ho, hkey, hle⟩

/-- The row of a finding that is covered has at least the severity. -/
def Covered (severity : Bytes) (fs : List Finding) (id : Bytes) : Prop :=
  ∀ r ∈ fs, r.id = id → findingRank severity ≤ findingRank r.notifiedSeverity

theorem covered_set (fs : List Finding) (id : Bytes) :
    Covered severity (setNotifiedSeverity fs id severity) id := by
  intro r hr hid
  obtain ⟨a, ha, rfl⟩ := List.mem_map.1 hr
  split at hid
  · next h => rw [if_pos h]
  · next h => exact absurd hid h

theorem Covered.set {id : Bytes} (h : Covered severity fs id) (id' : Bytes) :
    Covered severity (setNotifiedSeverity fs id' severity) id := by
  intro r hr hid
  obtain ⟨a, ha, rfl⟩ := List.mem_map.1 hr
  split
  · exact le_rfl
  · next hne =>
      rw [if_neg hne] at hid
      exact h a ha hid

/-- **What covering findings does.** -/
theorem cover_spec (h : Covering severity fs l) :
    Marked fs (cover fs l) ∧
      (∀ key rank, Announced fs key rank → Announced (cover fs l) key rank) ∧
      (∀ id, Covered severity fs id → Covered severity (cover fs l) id) ∧
      ∀ f ∈ l, Covered severity (cover fs l) f.id := by
  induction l generalizing fs with
  | nil => exact ⟨.refl fs, fun _ _ ha => ha, fun _ hc => hc, by simp⟩
  | cons f l ih =>
      rw [cover, List.foldl_cons]
      have hsev : f.severity = severity := (h f (by simp)).1
      rw [hsev]
      split
      · next hle =>
          obtain ⟨hmarked, hannounced, hcovered, hall⟩ :=
            ih fun f' hf' => h f' (List.mem_cons_of_mem _ hf')
          refine ⟨hmarked, hannounced, hcovered, fun f' hf' => ?_⟩
          rcases List.mem_cons.1 hf' with rfl | hf'
          · refine hcovered _ fun r hr hid => ?_
            rcases (h _ (by simp)).2 r hr hid with hsame | hsame
            · rw [hsame]
              exact hle
            · rw [hsame]
          · exact hall f' hf'
      · next hlt =>
          have hset : Covering severity (setNotifiedSeverity fs f.id severity) l :=
            Covering.set (fun f' hf' => h f' (List.mem_cons_of_mem _ hf')) f.id
          obtain ⟨hmarked, hannounced, hcovered, hall⟩ := ih hset
          have hknown : 0 ≤ findingRank severity := by
            have hleast := neg_one_le_findingRank f.notifiedSeverity
            omega
          refine ⟨(setNotifiedSeverity_marked fs f.id hknown).trans hmarked, fun key rank ha => ?_,
            fun id hc => hcovered id (hc.set f.id), fun f' hf' => ?_⟩
          · exact hannounced key rank (ha.set h (by simp) (le_of_not_ge hlt))
          · rcases List.mem_cons.1 hf' with rfl | hf'
            · exact hcovered _ (covered_set fs _)
            · exact hall f' hf'

/-- **What announcing does**: no announced severity is taken back, all findings are covered, and if
one is announced, it is above that of the rule. -/
theorem announce_spec (h : Covering severity fs l)
    (hlevels : ∀ f ∈ l, f.notifiedSeverity = [] ∨ 0 ≤ findingRank f.notifiedSeverity) {notified : ℤ}
    {out : Option Bytes} (hout : announce notified fs l = (t, out)) :
    Marked fs t ∧ (∀ key rank, Announced fs key rank → Announced t key rank) ∧
      (∀ f ∈ l, Covered severity t f.id) ∧
        ∀ s, out = some s → s = severity ∧ notified < findingRank severity := by
  have hsplit := List.takeWhile_append_dropWhile (p := fun f => !mayNotify notified f) (l := l)
  rw [announce] at hout
  cases hdrop : l.dropWhile fun f => !mayNotify notified f with
  | nil =>
      rw [hdrop] at hout
      obtain ⟨rfl, rfl⟩ := Prod.mk.inj hout
      obtain ⟨hmarked, hannounced, -, hall⟩ := cover_spec h
      exact ⟨hmarked, hannounced, hall, fun s hs => by cases hs⟩
  | cons f rest =>
      rw [hdrop] at hout hsplit
      obtain ⟨rfl, rfl⟩ := Prod.mk.inj hout
      have hf : f ∈ l := by
        rw [← hsplit]
        simp
      have hmay : mayNotify notified f = true := by
        have hhead := List.head?_dropWhile_not (fun f => !mayNotify notified f) l
        rw [hdrop] at hhead
        simpa using hhead
      have hlt : max notified (findingRank f.notifiedSeverity) < findingRank severity := by
        rw [← (h f hf).1]
        exact of_decide_eq_true hmay
      have hothers : ∀ f' ∈ (l.takeWhile fun f => !mayNotify notified f) ++ rest, f' ∈ l := by
        intro f' hf'
        rw [← hsplit]
        rcases List.mem_append.1 hf' with hf' | hf'
        · exact List.mem_append_left _ hf'
        · exact List.mem_append_right _ (List.mem_cons_of_mem _ hf')
      have hcovering : Covering severity fs
          ((l.takeWhile fun f => !mayNotify notified f) ++ rest) := fun f' hf' => h f' (hothers f' hf')
      have hbelow := (le_max_right _ _).trans_lt hlt
      have hknown : 0 ≤ findingRank severity := by
        have hleast := neg_one_le_findingRank f.notifiedSeverity
        omega
      rw [maybeNotify]
      split
      · next hquiet =>
          rw [(h f hf).1] at hquiet
          exact absurd hquiet.2 (not_le.2 (severityRank_lt (hlevels f hf) hbelow hquiet.1))
      · have hset : Covering severity (setNotifiedSeverity fs f.id f.severity)
            ((l.takeWhile fun f => !mayNotify notified f) ++ rest) := by
          rw [(h f hf).1]
          exact hcovering.set f.id
        obtain ⟨hmarked, hannounced, hcovered, hall⟩ := cover_spec hset
        refine ⟨?_, fun key rank ha => ?_, fun f' hf' => ?_,
          fun s hs => ⟨(Option.some.inj hs).symm.trans (h f hf).1, (le_max_left _ _).trans_lt hlt⟩⟩
        · rw [← (h f hf).1] at hknown
          exact (setNotifiedSeverity_marked fs _ hknown).trans hmarked
        · refine hannounced key rank ?_
          rw [(h f hf).1]
          exact ha.set h hf hbelow.le
        · rw [← hsplit, List.mem_append, List.mem_cons] at hf'
          rcases hf' with hf' | rfl | hf'
          · exact hall f' (List.mem_append_left _ hf')
          · refine hcovered _ ?_
            rw [(h _ hf).1]
            exact covered_set fs _
          · exact hall f' (List.mem_append_right _ hf')

end Severity

/-! ### What an evaluation does -/

theorem le_foldl_max (l : List ℤ) (a : ℤ) :
    a ≤ l.foldl max a ∧ ∀ x ∈ l, x ≤ l.foldl max a := by
  induction l generalizing a with
  | nil => simp
  | cons y l ih =>
      obtain ⟨hinit, hmem⟩ := ih (max a y)
      refine ⟨(le_max_left a y).trans hinit, fun x hx => ?_⟩
      rcases List.mem_cons.1 hx with rfl | hx
      · exact (le_max_right a _).trans hinit
      · exact hmem x hx

/-- The level announced for a rule is not below that of an open finding. -/
theorem le_ruleNotifiedRank {r : Finding} (hr : r ∈ fs) (ho : r.ofRule connectorID ruleID) :
    findingRank r.notifiedSeverity ≤ ruleNotifiedRank fs connectorID ruleID := by
  obtain ⟨hinit, hmem⟩ := le_foldl_max ((fs.filter fun r => r.ofRule connectorID ruleID ∧
    r.notifiedSeverity ≠ []).map fun r => findingRank r.notifiedSeverity) (-1)
  by_cases hnil : r.notifiedSeverity = []
  · rw [hnil]
    exact hinit
  · exact hmem _ (List.mem_map.2 ⟨r, List.mem_filter.2 ⟨hr, decide_eq_true ⟨ho, hnil⟩⟩, rfl⟩)

theorem neg_one_le_ruleNotifiedRank (fs : List Finding) (connectorID ruleID : Bytes) :
    -1 ≤ ruleNotifiedRank fs connectorID ruleID :=
  (le_foldl_max _ _).1

theorem ofRule_of_key {e : Match} {r : Finding} (hopen : r.isOpen = true)
    (hkey : r.key = e.key connectorID ruleID) : r.ofRule connectorID ruleID :=
  ⟨congrArg FindingKey.connectorId hkey, congrArg FindingKey.ruleId hkey, hopen⟩

/-- An open finding of the rule has the key of an entity with its kind and reference. -/
theorem key_of_ofRule (h : FindingsOk fs) (hrule : ruleID ≠ []) {r : Finding} (hr : r ∈ fs)
    (ho : r.ofRule connectorID ruleID) {e : Match} (hkind : e.kind = r.entityKind)
    (href : e.ref = r.entityRef) : r.key = e.key connectorID ruleID := by
  obtain ⟨hconnector, hruleId, -⟩ := ho
  rw [Finding.key, Match.key, hconnector, hruleId, h.compliance r hr (hruleId ▸ hrule), hkind, href]

variable {notifier : Bool} {rule : Rule} {ms : List Match} {out : Option Bytes}

/-- The parts of an evaluation with matches. -/
theorem evaluate_eq_some (hne : ms ≠ [])
    (hev : evaluateComplianceRule notifier connectorID rule fs ms = some (t, out)) :
    ∃ u upserted, upsertMatches connectorID rule
        (resolveExceptEntities fs connectorID rule.id (ms.map fun e => (e.kind, e.ref))) ms =
          some (u, upserted) ∧
      ((notifier = false ∧ out = none ∧ t = u) ∨
        notifier = true ∧ announce (ruleNotifiedRank (resolveExceptEntities fs connectorID rule.id
          (ms.map fun e => (e.kind, e.ref))) connectorID rule.id) u upserted = (t, out)) := by
  rw [evaluateComplianceRule, if_neg hne] at hev
  obtain ⟨⟨u, upserted⟩, hup, hev⟩ := Option.bind_eq_some_iff.1 hev
  refine ⟨u, upserted, hup, ?_⟩
  dsimp only at hev
  split at hev
  · next hn => exact Or.inr ⟨hn, Option.some.inj hev⟩
  · next hno =>
      obtain ⟨rfl, rfl⟩ := Prod.mk.inj (Option.some.inj hev)
      exact Or.inl ⟨Bool.not_eq_true notifier ▸ hno, rfl, rfl⟩

/-- **What an evaluation does**: the open findings are those of the matches, an announced severity
stays while its entity is matched and is not announced again, and with a notifier each match has the
rule's severity as an announced one afterwards. -/
theorem evaluate_spec (h : FindingsOk fs) (hrule : rule.id ≠ []) (hms : ∀ e ∈ ms, e.Ok)
    (hev : evaluateComplianceRule notifier connectorID rule fs ms = some (t, out)) :
    FindingsOk t ∧
      (∀ r ∈ t, r.ofRule connectorID rule.id → ∃ e ∈ ms, r.key = e.key connectorID rule.id) ∧
      (∀ e ∈ ms, ∃ r ∈ t, r.isOpen = true ∧ r.key = e.key connectorID rule.id ∧
        r.severity = rule.severity) ∧
      (∀ e ∈ ms, e.Named → ∀ rank, Announced fs (e.key connectorID rule.id) rank →
        Announced t (e.key connectorID rule.id) rank ∧ ∀ s, out = some s → rank < findingRank s) ∧
      (notifier = true → ∀ e ∈ ms,
        Announced t (e.key connectorID rule.id) (findingRank rule.severity)) ∧
      ∀ s, out = some s → notifier = true ∧ 0 ≤ findingRank s := by
  by_cases hne : ms = []
  · subst hne
    obtain ⟨rfl, rfl⟩ := Prod.mk.inj (Option.some.inj hev)
    refine ⟨h.resolveForRule, ?_, by simp, by simp, by simp, fun s hs => by cases hs⟩
    intro r hr ho
    obtain ⟨a, ha, rfl⟩ := List.mem_map.1 hr
    split at ho
    · cases ho.2.2
    · next hno => exact absurd ho hno
  · obtain ⟨u, upserted, hup, hout⟩ := evaluate_eq_some hne hev
    have hresolved : FindingsOk (resolveExceptEntities fs connectorID rule.id
        (ms.map fun e => (e.kind, e.ref))) := h.resolveExcept _
    obtain ⟨hu, hforth, hback, hmatched, hupserted⟩ := upsertMatches_spec hms hresolved hup
    have hkeep : ∀ k ∈ ms.map (fun e => (e.kind, e.ref)), (0 : UInt8) ∉ k.1 := by
      intro k hk
      obtain ⟨e, he, rfl⟩ := List.mem_map.1 hk
      exact hms e he
    have hcovering : Covering rule.severity u upserted := by
      intro f hf
      obtain ⟨hsev, r, hr, hid, hnot⟩ := hupserted f hf
      refine ⟨hsev, fun r' hr' hid' => Or.inl ?_⟩
      rw [List.inj_on_of_nodup_map hu.ids hr' hr (hid'.trans hid.symm), hnot]
    have hlevels : ∀ f ∈ upserted, f.notifiedSeverity = [] ∨ 0 ≤ findingRank f.notifiedSeverity := by
      intro f hf
      obtain ⟨-, r, hr, -, hnot⟩ := hupserted f hf
      exact hnot ▸ hu.levels r hr
    have hannounced : ∀ e ∈ ms, e.Named → ∀ rank, Announced fs (e.key connectorID rule.id) rank →
        Announced u (e.key connectorID rule.id) rank := by
      intro e he hnamed rank ha
      obtain ⟨r, hr, ho, hkey, hle⟩ := resolveExcept_announced h he hnamed ha
      obtain ⟨r', hr', ho', hkey', -, hnot', -⟩ := hforth r hr ho
      exact ⟨r', hr', ho', hkey'.trans hkey, hnot' ▸ hle⟩
    -- what is announced, whether or not there is a notifier
    have hmark : Marked u t ∧ (∀ key rank, Announced u key rank → Announced t key rank) ∧
        (notifier = true → ∀ f ∈ upserted, Covered rule.severity t f.id) ∧
        ∀ s, out = some s → notifier = true ∧ s = rule.severity ∧ ruleNotifiedRank
          (resolveExceptEntities fs connectorID rule.id (ms.map fun e => (e.kind, e.ref)))
            connectorID rule.id < findingRank rule.severity := by
      rcases hout with ⟨rfl, rfl, rfl⟩ | ⟨hn, hout⟩
      · exact ⟨.refl t, fun _ _ ha => ha, by simp, by simp⟩
      · obtain ⟨hmarked, hkept, hall, hnew⟩ := announce_spec hcovering hlevels hout
        exact ⟨hmarked, hkept, fun _ => hall, fun s hs => ⟨hn, hnew s hs⟩⟩
    obtain ⟨hmarked, hkept, hcovered, hnew⟩ := hmark
    refine ⟨hu.marked hmarked, ?_, ?_, ?_, ?_, ?_⟩
    · obtain ⟨g, rfl, hg⟩ := hmarked
      intro r hr ho
      obtain ⟨a, ha, rfl⟩ := List.mem_map.1 hr
      obtain ⟨-, hkey, hopen, -⟩ := hg a
      rw [hkey]
      have hao : a.isOpen = true := hopen ▸ ho.2.2
      rcases hback a ha hao with hmatch | hold
      · exact hmatch
      · have hrow : a.ofRule connectorID rule.id :=
          ⟨(congrArg FindingKey.connectorId hkey).symm.trans ho.1,
            (congrArg FindingKey.ruleId hkey).symm.trans ho.2.1, hao⟩
        obtain ⟨e, he, heq⟩ := List.mem_map.1 (resolveExcept_open h hrule hkeep hold hrow)
        obtain ⟨hkind, href⟩ := Prod.mk.inj heq
        exact ⟨e, he, key_of_ofRule hu hrule ha hrow hkind href⟩
    · obtain ⟨g, rfl, hg⟩ := hmarked
      intro e he
      obtain ⟨-, -, r, hr, ho, hkey, -, hsev⟩ := hmatched e he
      obtain ⟨-, hgkey, hgopen, hgsev, -⟩ := hg r
      exact ⟨g r, List.mem_map_of_mem hr, hgopen.trans ho, hgkey.trans hkey, hgsev.trans hsev⟩
    · intro e he hnamed rank ha
      refine ⟨hkept _ _ (hannounced e he hnamed rank ha), fun s hs => ?_⟩
      obtain ⟨-, rfl, hlt⟩ := hnew s hs
      obtain ⟨r, hr, ho, hkey, hle⟩ := resolveExcept_announced h he hnamed ha
      exact (hle.trans (le_ruleNotifiedRank hr (ofRule_of_key ho hkey))).trans_lt hlt
    · intro hn e he
      obtain ⟨f, hf, r, hr, ho, hkey, hid, -⟩ := hmatched e he
      obtain ⟨g, rfl, hg⟩ := hmarked
      obtain ⟨hgid, hgkey, hgopen, -⟩ := hg r
      exact ⟨g r, List.mem_map_of_mem hr, hgopen.trans ho, hgkey.trans hkey,
        hcovered hn f hf (g r) (List.mem_map_of_mem hr) (hgid.trans hid)⟩
    · intro s hs
      obtain ⟨hn, rfl, hlt⟩ := hnew s hs
      exact ⟨hn, Int.add_one_le_of_lt ((neg_one_le_ruleNotifiedRank _ _ _).trans_lt hlt)⟩

end Evaluation

/-! ### Runs -/

/-- An evaluation of the rule as it is at the time, and what matches it then. -/
structure Call where
  rule : Rule
  ms : List Match

/-- The evaluations of one rule on one connector, with what each announces. -/
def complianceMachine (notifier : Bool) (connectorID ruleID : Bytes) :
    Machine (List Finding) (Call × Option Bytes) where
  init fs := fs = []
  step fs a t := a.1.rule.id = ruleID ∧ (∀ e ∈ a.1.ms, e.Ok) ∧
    evaluateComplianceRule notifier connectorID a.1.rule fs a.1.ms = some (t, a.2)

/-- **The open findings of the rule follow a call**: there is one for each entity that matched, with
the rule's severity. -/
structure Follows (connectorID ruleID : Bytes) (c : Call) (t : List Finding) : Prop where
  one : ∀ r ∈ t, ∀ r' ∈ t, r.ofRule connectorID ruleID → r'.ofRule connectorID ruleID →
    r.entityKind = r'.entityKind → r.entityRef = r'.entityRef → r = r'
  matched : ∀ kind ref, (∃ r ∈ t, r.ofRule connectorID ruleID ∧ r.entityKind = kind ∧
    r.entityRef = ref) ↔ ∃ e ∈ c.ms, e.kind = kind ∧ e.ref = ref
  severity : ∀ r ∈ t, r.ofRule connectorID ruleID → r.severity = c.rule.severity

/-- The entity of a match is matched by a call. -/
def Call.Matches (c : Call) (e : Match) : Prop := ∃ e' ∈ c.ms, e'.kind = e.kind ∧ e'.ref = e.ref

instance (c : Call) (e : Match) : Decidable (c.Matches e) :=
  inferInstanceAs (Decidable (∃ e' ∈ c.ms, e'.kind = e.kind ∧ e'.ref = e.ref))

/-- **The level at which an entity has been announced**: the highest severity of the rule in the
calls since which the entity is matched without a break, and -1 if the last call did not match it.
-/
def announcedLevel (calls : List Call) (e : Match) : ℤ :=
  calls.foldl (fun level c => if c.Matches e then max level (findingRank c.rule.severity) else -1) (-1)

section Runs

variable {notifier : Bool} {connectorID ruleID : Bytes}

theorem complianceMachine_ok (hrule : ruleID ≠ []) {s t : List Finding}
    {as : List (Call × Option Bytes)} (hrun : (complianceMachine notifier connectorID ruleID).Run s as t)
    (hs : FindingsOk s) : FindingsOk t := by
  refine hrun.invariant (fun s a t hs hstep => ?_) hs
  obtain ⟨rfl, hms, hev⟩ := hstep
  exact (evaluate_spec hs hrule hms hev).1

/-- A call leaves the findings of its matches. -/
theorem follows_of_step (hrule : ruleID ≠ []) {s t : List Finding} {c : Call} {out : Option Bytes}
    (hs : FindingsOk s) (hstep : (complianceMachine notifier connectorID ruleID).step s (c, out) t) :
    Follows connectorID ruleID c t := by
  obtain ⟨rfl, hms, hev⟩ := hstep
  obtain ⟨ht, hrows, hmatched, -, -⟩ := evaluate_spec hs hrule hms hev
  have hone : ∀ r ∈ t, ∀ r' ∈ t, r.ofRule connectorID c.rule.id → r'.ofRule connectorID c.rule.id →
      r.entityKind = r'.entityKind → r.entityRef = r'.entityRef → r = r' := by
    intro r hr r' hr' ho ho' hkind href
    obtain ⟨e, he, hkey⟩ := hrows r hr ho
    have hkind' : e.kind = r'.entityKind := (congrArg FindingKey.entityKind hkey).symm.trans hkind
    have href' : e.ref = r'.entityRef := (congrArg FindingKey.entityRef hkey).symm.trans href
    have hkey' := key_of_ofRule ht hrule hr' ho' hkind' href'
    exact ht.keys r hr r' hr' ho.2.2 ho'.2.2 (hkey.trans hkey'.symm)
  refine ⟨hone, fun kind ref => ⟨?_, ?_⟩, fun r hr ho => ?_⟩
  · rintro ⟨r, hr, ho, rfl, rfl⟩
    obtain ⟨e, he, hkey⟩ := hrows r hr ho
    exact ⟨e, he, (congrArg FindingKey.entityKind hkey).symm, (congrArg FindingKey.entityRef hkey).symm⟩
  · rintro ⟨e, he, rfl, rfl⟩
    obtain ⟨r, hr, hopen, hkey, -⟩ := hmatched e he
    exact ⟨r, hr, ofRule_of_key hopen hkey, congrArg FindingKey.entityKind hkey,
      congrArg FindingKey.entityRef hkey⟩
  · obtain ⟨e, he, hkey⟩ := hrows r hr ho
    obtain ⟨r', hr', hopen, hkey', hsev⟩ := hmatched e he
    rw [ht.keys r hr r' hr' ho.2.2 hopen (hkey.trans hkey'.symm), hsev]

theorem announcedLevel_append (calls : List Call) (c : Call) (e : Match) :
    announcedLevel (calls ++ [c]) e = if c.Matches e then
      max (announcedLevel calls e) (findingRank c.rule.severity) else -1 := by
  rw [announcedLevel, List.foldl_append]
  rfl

/-- **The open finding of an entity carries the level at which the entity has been announced.** -/
theorem announced_of_run (hrule : ruleID ≠ []) {s t : List Finding} {as : List (Call × Option Bytes)}
    (hrun : (complianceMachine true connectorID ruleID).Run s as t) (hs : FindingsOk s) {e : Match}
    (hnamed : e.Named) (hlevel : -1 < announcedLevel (as.map Prod.fst) e) :
    Announced t (e.key connectorID ruleID) (announcedLevel (as.map Prod.fst) e) := by
  induction hrun with
  | nil => exact absurd hlevel (lt_irrefl _)
  | snoc hrun hstep ih =>
      have hok := complianceMachine_ok hrule hrun hs
      obtain ⟨rfl, hms, hev⟩ := hstep
      obtain ⟨-, -, -, hkeeps, hcovers, -⟩ := evaluate_spec hok hrule hms hev
      rw [List.map_append, List.map_singleton, announcedLevel_append] at hlevel ⊢
      split at hlevel
      · next hmatch =>
          rw [if_pos hmatch]
          obtain ⟨e', he', hkind, href⟩ := hmatch
          have hkey : ∀ ruleID, e'.key connectorID ruleID = e.key connectorID ruleID := by
            intro ruleID
            rw [Match.key, Match.key, hkind, href]
          have hnamed' : e'.Named := by
            rw [Match.Named, hkind, href]
            exact hnamed
          -- the level is that of the calls before, or the rule's severity in this one
          rcases max_choice (announcedLevel _ e) (findingRank _) with hbefore | hnow
          · rw [hbefore] at hlevel ⊢
            rw [← hkey]
            exact (hkeeps e' he' hnamed' _ (hkey _ ▸ ih hlevel)).1
          · rw [hnow, ← hkey]
            exact hcovers rfl e' he'
      · exact absurd hlevel (lt_irrefl _)

/-- **The findings follow the rule**: after each call there is one open finding for each entity that
matched, with the rule's severity.  **Between two notifications** whose severity did not increase
there is a call that matches no entity announced at a level not below the first one. -/
theorem compliance_findings (notifier : Bool) (connectorID ruleID : Bytes) (hrule : ruleID ≠ [])
    (s : List Finding) (hs : FindingsOk s) :
    (∀ hist c out t, (complianceMachine notifier connectorID ruleID).Run s (hist ++ [(c, out)]) t →
        Follows connectorID ruleID c t) ∧
      ∀ hist c sev mid c' sev' t, (complianceMachine notifier connectorID ruleID).Run s
          (hist ++ [(c, some sev)] ++ (mid ++ [(c', some sev')])) t →
        findingRank sev' ≤ findingRank sev → ∃ pre a post,
          mid ++ [(c', some sev')] = pre ++ a :: post ∧ ∀ e ∈ a.1.ms, e.Named →
            announcedLevel ((hist ++ [(c, some sev)] ++ pre).map Prod.fst) e < findingRank sev := by
  constructor
  · intro hist c out t hrun
    obtain ⟨u, hu, hlast⟩ := hrun.split
    obtain ⟨v, hstep, hv⟩ := hlast.head
    obtain rfl := hv.nil_inv
    exact follows_of_step hrule (complianceMachine_ok hrule hu hs) hstep
  · intro hist c sev mid c' sev' t hrun hle
    -- it is the second notification itself
    refine ⟨mid, (c', some sev'), [], rfl, fun e he hnamed => ?_⟩
    rw [← List.append_assoc] at hrun
    obtain ⟨w, hw, hlast⟩ := hrun.split
    obtain ⟨t', hstep, ht'⟩ := hlast.head
    obtain rfl := ht'.nil_inv
    obtain ⟨rfl, hms, hev⟩ := hstep
    obtain ⟨-, -, -, hkeeps, -, hnotifier⟩ :=
      evaluate_spec (complianceMachine_ok hrule hw hs) hrule hms hev
    obtain ⟨rfl, hknown⟩ := hnotifier sev' rfl
    by_contra hlevel
    have hfirst := hle.trans (not_lt.1 hlevel)
    have hannounced := announced_of_run hrule hw hs hnamed (by omega)
    exact absurd hfirst (not_le.2 ((hkeeps e he hnamed _ hannounced).2 sev' rfl))

end Runs

def sampleRule (severity : Bytes) : Rule := ⟨bytes "r", severity, bytes "No backup", []⟩

def vm (name newId : Bytes) : Match := ⟨bytes "vm", name, name, newId⟩

/-- One of the matches has an open finding already. -/
def sharesOpen (fs : List Finding) (ms : List Match) : Bool :=
  ms.any fun e => fs.any fun r => r.isOpen && r.key = e.key (bytes "c") (bytes "r")

/-- **A severity is announced twice although each call shares a finding with the one before**: while
the rule is a warning, one entity takes over from the one that was announced as critical. -/
theorem renotified_after_turnover :
    ∃ s₁ s₂ s₃ s₄,
      evaluateComplianceRule true (bytes "c") (sampleRule (bytes "critical")) []
          [vm (bytes "a") (bytes "1")] = some (s₁, some (bytes "critical")) ∧
        (evaluateComplianceRule true (bytes "c") (sampleRule (bytes "warning")) s₁
          [vm (bytes "a") (bytes "2"), vm (bytes "b") (bytes "3")] = some (s₂, none) ∧
            sharesOpen s₁ [vm (bytes "a") (bytes "2"), vm (bytes "b") (bytes "3")] = true) ∧
        (evaluateComplianceRule true (bytes "c") (sampleRule (bytes "warning")) s₂
          [vm (bytes "b") (bytes "4")] = some (s₃, none) ∧
            sharesOpen s₂ [vm (bytes "b") (bytes "4")] = true) ∧
        evaluateComplianceRule true (bytes "c") (sampleRule (bytes "critical")) s₃
          [vm (bytes "b") (bytes "5")] = some (s₄, some (bytes "critical")) ∧
            sharesOpen s₃ [vm (bytes "b") (bytes "5")] = true := by
  refine ⟨_, _, _, _, rfl, ⟨rfl, ?_⟩, ⟨rfl, ?_⟩, rfl, ?_⟩
  · decide
  · decide
  · decide

def criticalCall (ms : List Match) : Call := ⟨sampleRule (bytes "critical"), ms⟩

def warningCall (ms : List Match) : Call := ⟨sampleRule (bytes "warning"), ms⟩

/-- The calls between the two notifications of that run. -/
def turnover : List (Call × Option Bytes) :=
  [(warningCall [vm (bytes "a") (bytes "2"), vm (bytes "b") (bytes "3")], none),
    (warningCall [vm (bytes "b") (bytes "4")], none)]

/-- In that run the call before which no entity that was announced as critical is left matches an
entity that was announced as a warning. -/
theorem compliance_findings_sample :
    ∃ t, (complianceMachine true (bytes "c") (bytes "r")).Run []
        ([(criticalCall [vm (bytes "a") (bytes "1")], some (bytes "critical"))] ++
          (turnover ++ [(criticalCall [vm (bytes "b") (bytes "5")], some (bytes "critical"))])) t ∧
      Follows (bytes "c") (bytes "r") (criticalCall [vm (bytes "b") (bytes "5")]) t ∧
      ∃ pre a post, turnover ++ [(criticalCall [vm (bytes "b") (bytes "5")], some (bytes "critical"))] =
        pre ++ a :: post ∧ ∀ e ∈ a.1.ms, e.Named → announcedLevel (([(criticalCall
          [vm (bytes "a") (bytes "1")], some (bytes "critical"))] ++ pre).map Prod.fst) e < 2 := by
  have hrun : ∃ t, (complianceMachine true (bytes "c") (bytes "r")).Run []
      ([(criticalCall [vm (bytes "a") (bytes "1")], some (bytes "critical"))] ++
        (turnover ++ [(criticalCall [vm (bytes "b") (bytes "5")], some (bytes "critical"))])) t := by
    refine ⟨_, .cons ⟨rfl, by decide, rfl⟩ (.cons ⟨rfl, by decide, rfl⟩ (.cons ⟨rfl, by decide, rfl⟩
      (.cons ⟨rfl, by decide, rfl⟩ .nil)))⟩
  obtain ⟨t, hrun⟩ := hrun
  obtain ⟨hfollows, hagain⟩ := compliance_findings true (bytes "c") (bytes "r") (by decide) []
    ⟨List.nodup_nil, by simp, by simp, by simp, by simp⟩
  have hafter := hrun
  rw [← List.append_assoc] at hafter
  exact ⟨t, hrun, hfollows _ _ _ t hafter, hagain [] _ _ _ _ _ t hrun le_rfl⟩

end WiseLabz.Quality
