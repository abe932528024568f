/-
**The docs tables and their primitive operations.**

The rows of the docs, of their versions, of the edit proposals and of the review changes, and the
store calls that write a doc's content.  Each call is one transaction: it returns the tables after
it, or an error and no tables, so a failed call leaves everything as it was.  The clock and the ids
of new rows are arguments.

Main definitions:

* `Store.DocRecord`, `Store.DocVersionRecord`, `Store.ChangeRecord`, `Store.DocEditProposal`,
  `Store.Db` — the rows and the tables;
* `Store.getDoc`, `Store.createDoc`, `Store.createDocVersion`, `Store.updateDocContent` — reading
  and writing rows;
* `Store.getLatestChangeByPattern`, `Store.updateChangeStatus`, `Store.createChange` — the changes;
* `Store.updateDocWithVersion`, `Store.applyGeneratedRender`, `Store.touchDocSynced`,
  `Store.setDocTopologyFingerprint`, `Store.setDocOrigin`, `Store.approveDocEditProposal` — the calls built from them.

Main results:

* `Store.updateDocContent_eq_ok`, `Store.updateDocWithVersion_eq_ok`,
  `Store.applyGeneratedRender_eq_ok` — what a successful call has found and written.
-/

import WiseLabz.Lib.Bytes
import WiseLabz.Lib.Fallible
import WiseLabz.Lib.Sorting
import Mathlib.Data.List.Nodup

set_option relaxedAutoImplicit false
set_option autoImplicit false

namespace WiseLabz.Store

open Lib

/-! ### Rows -/

/-- The errors of the store calls modelled here; `constraint` is a violated table constraint. -/
inductive StoreError
  | notFound
  | conflict
  | versionConflict
  | constraint
  deriving DecidableEq, Repr

/-- `'lab'` or `'service'`. -/
inductive DocKind
  | lab
  | service
  deriving DecidableEq, Repr

/-- `'generated'` (sync may merge its generated blocks) or `'human'` (sync never touches it). -/
inductive DocOrigin
  | generated
  | human
  deriving DecidableEq, Repr

/-- A row of the docs table.  Ids are texts, and an empty text stands for NULL. -/
structure DocRecord where
  id : Bytes
  title : Bytes
  kind : DocKind
  /-- The connector of the doc; empty for a lab doc. -/
  serviceId : Bytes
  content : Bytes
  currentVersion : ℕ
  /-- In seconds. -/
  updatedAt : ℕ
  origin : DocOrigin
  /-- The template the doc was generated from; empty for the plain snapshot render. -/
  templateId : Bytes
  /-- When sync last merged the doc, in seconds. -/
  lastSyncedAt : Option ℕ
  /-- The block keys of the last applied render, as they are read from their JSON text. -/
  genKeys : Option (List Bytes)
  parentId : Bytes
  /-- The timestamp text of the deletion; `none` for an active doc. -/
  deletedAt : Option Bytes
  createdBy : Bytes
  topologyFingerprint : Bytes
  deriving DecidableEq, Repr

/-- A row of the doc versions table. -/
structure DocVersionRecord where
  docId : Bytes
  rev : ℕ
  content : Bytes
  /-- Empty for a system write. -/
  author : Bytes
  trigger : Bytes
  deriving DecidableEq, Repr

/-- The status of a proposal. -/
inductive ProposalStatus
  | pending
  | approved
  | rejected
  deriving DecidableEq, Repr

/-- A suggested replacement body for a doc. -/
structure DocEditProposal where
  id : Bytes
  docId : Bytes
  baseVersion : ℕ
  content : Bytes
  status : ProposalStatus
  reviewerId : Bytes
  deriving DecidableEq, Repr

/-- The stored diff of a doc change: the block key (empty for an adoption), both texts, and the hash
of the generated one. -/
structure ChangeDiff where
  docId : Bytes
  key : Bytes
  human : Bytes
  generated : Bytes
  genHash : Bytes
  deriving DecidableEq, Repr

/-- The status of a change. -/
inductive ChangeStatus
  | new
  | acknowledged
  | dismissed
  deriving DecidableEq, Repr

/-- A row of the changes table. -/
structure ChangeRecord where
  /-- The random id of the row.  Its text is written with a fixed number of digits, so its order is
  that of the number. -/
  id : ℕ
  serviceId : Bytes
  changeType : Bytes
  /-- The diff, when it is one of a doc change. -/
  diff : Option ChangeDiff
  status : ChangeStatus
  /-- In seconds. -/
  detectedAt : ℕ
  affectedDocIds : List Bytes
  patternId : Bytes
  deriving DecidableEq, Repr

/-- The tables. -/
structure Db where
  docs : List DocRecord
  versions : List DocVersionRecord
  proposals : List DocEditProposal
  changes : List ChangeRecord

/-! ### Reading and writing rows -/

/-- The active doc with the id: `WHERE id = ? AND deleted_at IS NULL`. -/
def DocRecord.isActive (id : Bytes) (d : DocRecord) : Bool := d.id == id && d.deletedAt.isNone

/-- `GetDoc`. -/
def getDoc (db : Db) (id : Bytes) : Option DocRecord := db.docs.find? (DocRecord.isActive id)

/-- `UPDATE docs SET … WHERE …`. -/
def updateDocs (db : Db) (p : DocRecord → Bool) (f : DocRecord → DocRecord) : Db :=
  { db with docs := db.docs.map fun d => if p d then f d else d }

/-- `CreateDoc`: ids are unique, and a parent must exist. -/
def createDoc (db : Db) (d : DocRecord) : Except StoreError Db :=
  if db.docs.any (fun d' => d'.id == d.id) ∨
      (d.parentId ≠ [] ∧ ¬ db.docs.any (fun d' => d'.id == d.parentId)) then
    .error .constraint
  else .ok { db with docs := db.docs ++ [d] }

/-- `CreateDocVersion`: one row for each doc and revision, and the doc must exist. -/
def createDocVersion (db : Db) (v : DocVersionRecord) : Except StoreError Db :=
  if db.versions.any (fun v' => v'.docId == v.docId && v'.rev == v.rev) ∨
      ¬ db.docs.any (fun d => d.id == v.docId) then
    .error .constraint
  else .ok { db with versions := db.versions ++ [v] }

/-- `GetDocVersions`, newest first. -/
def getDocVersions (db : Db) (docId : Bytes) : List DocVersionRecord :=
  if (getDoc db docId).isSome then
    (db.versions.filter fun v => v.docId == docId).insertionSort fun v v' => v'.rev ≤ v.rev
  else []

/-- ASCII letters in lower case. -/
def lower (s : Bytes) : Bytes := s.map fun b => if 65 ≤ b ∧ b ≤ 90 then b + 32 else b

/-- `LOWER(title) LIKE LOWER('%…%')`, for a search text whose wildcards are escaped. -/
def DocRecord.titleContains (search : Bytes) (d : DocRecord) : Bool :=
  (lower d.title).tails.any (lower search).isPrefixOf

/-- `ListAllDocs`: a page of the active docs whose title contains the search text, the last updated
ones first. -/
def listAllDocs (db : Db) (search : Bytes) (offset limit : ℕ) : List DocRecord :=
  (((db.docs.filter fun d => d.deletedAt.isNone && d.titleContains search).insertionSort
    fun d d' => d'.updatedAt ≤ d.updatedAt).drop offset).take limit

/-- Whether the update of a doc's content applies to the row. -/
def DocRecord.updatable (id : Bytes) (expectedVersion : Option ℕ) (d : DocRecord) : Bool :=
  d.isActive id && (expectedVersion.isNone || expectedVersion == some d.currentVersion)

/-- The update of a doc's content. -/
def DocRecord.withContent (content : Bytes) (now : ℕ) (d : DocRecord) : DocRecord :=
  { d with content := content, updatedAt := now, currentVersion := d.currentVersion + 1 }

/-- `updateDocContent`: writes the content of an active doc, at the expected version if one is
given, and returns the revision it produced. -/
def updateDocContent (db : Db) (id content : Bytes) (expectedVersion : Option ℕ) (now : ℕ) :
    Except StoreError (Db × ℕ) :=
  match db.docs.find? (DocRecord.updatable id expectedVersion) with
  | some d =>
      .ok (updateDocs db (DocRecord.updatable id expectedVersion) (DocRecord.withContent content now),
        d.currentVersion + 1)
  | none =>
      if expectedVersion.isSome ∧ (getDoc db id).isSome then .error .versionConflict
      else .error .notFound

/-! ### The content writers -/

/-- `UpdateDocWithVersion`: the content and its version row in one transaction. -/
def updateDocWithVersion (db : Db) (id content : Bytes) (expectedVersion : Option ℕ)
    (author trigger : Bytes) (now : ℕ) : Except StoreError (Db × ℕ) := do
  let (db, rev) ← updateDocContent db id content expectedVersion now
  let db ← createDocVersion db ⟨id, rev, content, author, trigger⟩
  return (db, rev)

/-- One `ApplyGeneratedRender` write; no origin or template leaves the stored one. -/
structure GeneratedRender where
  content : Bytes
  genKeys : List Bytes
  expectedVersion : Option ℕ
  author : Bytes
  trigger : Bytes
  origin : Option DocOrigin
  templateId : Option Bytes

/-- The provenance that a generated render writes beside the content. -/
def DocRecord.withRender (r : GeneratedRender) (now : ℕ) (d : DocRecord) : DocRecord :=
  { d with
    genKeys := some r.genKeys
    lastSyncedAt := some now
    origin := r.origin.getD d.origin
    templateId := r.templateId.getD d.templateId }

/-- `ApplyGeneratedRender`: content, version row and provenance in one transaction. -/
def applyGeneratedRender (db : Db) (id : Bytes) (r : GeneratedRender) (now : ℕ) :
    Except StoreError (Db × ℕ) := do
  let (db, rev) ← updateDocContent db id r.content r.expectedVersion now
  let db ← createDocVersion db ⟨id, rev, r.content, r.author, r.trigger⟩
  return (updateDocs db (fun d => d.id == id) (DocRecord.withRender r now), rev)

/-- A doc after a sync that had nothing to write. -/
def DocRecord.touched (genKeys : List Bytes) (now : ℕ) (d : DocRecord) : DocRecord :=
  { d with lastSyncedAt := some now, genKeys := some genKeys }

/-- `TouchDocSynced`: the time of the sync and the render's keys, no content and no version. -/
def touchDocSynced (db : Db) (id : Bytes) (genKeys : List Bytes) (now : ℕ) : Db :=
  updateDocs db (fun d => d.id == id) (DocRecord.touched genKeys now)

/-- Whether a topology fingerprint may be recorded on the row; with a new content only at the expected
version. -/
def DocRecord.takesFingerprint (id : Bytes) (content : Option Bytes) (expectedVersion : ℕ)
    (d : DocRecord) : Bool :=
  d.isActive id && (content.isNone || d.currentVersion == expectedVersion)

/-- A doc with another fingerprint, and another content if one is given. -/
def DocRecord.withFingerprint (fingerprint : Bytes) (content : Option Bytes) (d : DocRecord) :
    DocRecord :=
  { d with topologyFingerprint := fingerprint, content := content.getD d.content }

/-- `SetDocTopologyFingerprint`: records the fingerprint, and replaces the content in place, without
a new version, if one is given. -/
def setDocTopologyFingerprint (db : Db) (id fingerprint : Bytes) (content : Option Bytes)
    (expectedVersion : ℕ) : Except StoreError Db :=
  if db.docs.any (DocRecord.takesFingerprint id content expectedVersion) then
    .ok (updateDocs db (DocRecord.takesFingerprint id content expectedVersion)
      (DocRecord.withFingerprint fingerprint content))
  else if (getDoc db id).isSome then .error .versionConflict
  else .error .notFound

/-- A doc under another owner. -/
def DocRecord.withOrigin (origin : DocOrigin) (d : DocRecord) : DocRecord :=
  { d with origin := origin }

/-- `SetDocOrigin`. -/
def setDocOrigin (db : Db) (id : Bytes) (origin : DocOrigin) : Except StoreError Db :=
  if db.docs.any (fun d => d.id == id) then
    .ok (updateDocs db (fun d => d.id == id) (DocRecord.withOrigin origin))
  else .error .notFound

/-- `ApproveDocEditProposal`: claims a pending proposal and applies it at its base version. -/
def approveDocEditProposal (db : Db) (id reviewerId : Bytes) (now : ℕ) :
    Except StoreError (Db × ℕ) := do
  match db.proposals.find? fun p => p.id == id && p.status == .pending with
  | none => if db.proposals.any (fun p => p.id == id) then .error .conflict else .error .notFound
  | some p =>
      let db := { db with proposals := db.proposals.map fun q =>
        if q.id == id && q.status == .pending then
          { q with status := .approved, reviewerId := reviewerId } else q }
      let (db, rev) ← updateDocContent db p.docId p.content (some p.baseVersion) now
      let db ← createDocVersion db ⟨p.docId, rev, p.content, reviewerId, bytes "proposal"⟩
      return (db, rev)

/-! ### Changes -/

/-- `ORDER BY detected_at DESC, id DESC`. -/
def ChangeRecord.NotOlder (c c' : ChangeRecord) : Prop :=
  c'.detectedAt < c.detectedAt ∨ (c'.detectedAt = c.detectedAt ∧ c'.id ≤ c.id)

instance : DecidableRel ChangeRecord.NotOlder := fun _ _ => inferInstanceAs (Decidable (_ ∨ _))

/-- The changes of a pattern, in the order of their creation. -/
def changesOf (db : Db) (patternId : Bytes) : List ChangeRecord :=
  db.changes.filter fun c => c.patternId == patternId

/-- `GetLatestChangeByPattern`. -/
def getLatestChangeByPattern (db : Db) (patternId : Bytes) : Option ChangeRecord :=
  ((changesOf db patternId).insertionSort ChangeRecord.NotOlder).head?

/-- `UpdateChangeStatus`, of a change that exists. -/
def updateChangeStatus (db : Db) (id : ℕ) (status : ChangeStatus) : Db :=
  { db with changes := db.changes.map fun c => if c.id = id then { c with status := status } else c }

/-- `CreateChange`. -/
def createChange (db : Db) (c : ChangeRecord) : Db := { db with changes := db.changes ++ [c] }

/-! ### What a successful call has done -/

theorem getDoc_eq_some {db : Db} {id : Bytes} {d : DocRecord} (h : getDoc db id = some d) :
    d ∈ db.docs ∧ d.id = id ∧ d.deletedAt = none := by
  have hm := List.mem_of_find?_eq_some h
  have hp := List.find?_some h
  simp only [DocRecord.isActive, Bool.and_eq_true, beq_iff_eq, Option.isNone_iff_eq_none] at hp
  exact ⟨hm, hp.1, hp.2⟩

/-- An update that keeps ids and deletion marks shows in what is read back. -/
theorem getDoc_updateDocs {db : Db} {p : DocRecord → Bool} {f : DocRecord → DocRecord}
    (hid : ∀ d, (f d).id = d.id) (hdel : ∀ d, (f d).deletedAt = d.deletedAt) (id : Bytes) :
    getDoc (updateDocs db p f) id = (getDoc db id).map fun d => if p d then f d else d := by
  have hactive : (DocRecord.isActive id ∘ fun d => if p d then f d else d) =
      DocRecord.isActive id := by
    funext d
    by_cases hp : p d = true <;> simp [DocRecord.isActive, hp, hid, hdel]
  rw [getDoc, updateDocs, List.find?_map, hactive, getDoc]

/-- A new row shows under its own id only. -/
theorem getDoc_append {db db' : Db} {x : DocRecord} (hdocs : db'.docs = db.docs ++ [x])
    (hfresh : ∀ d ∈ db.docs, d.id ≠ x.id) (hdel : x.deletedAt = none) (a : Bytes) :
    getDoc db' a = if a = x.id then some x else getDoc db a := by
  rw [getDoc, hdocs, List.find?_append]
  by_cases ha : a = x.id
  · have hnone : db.docs.find? (DocRecord.isActive a) = none := by
      rw [List.find?_eq_none]
      intro d hd
      simp [DocRecord.isActive, ha, hfresh d hd]
    rw [hnone, Option.none_or, if_pos ha]
    simp [DocRecord.isActive, ha, hdel]
  · have hlast : [x].find? (DocRecord.isActive a) = none := by
      simp [DocRecord.isActive, Ne.symm ha]
    rw [hlast, Option.or_none, if_neg ha, getDoc]

/-- Ids are a key of the docs table. -/
def UniqueIds (db : Db) : Prop := (db.docs.map (·.id)).Nodup

theorem UniqueIds.eq_of_id {db : Db} (hu : UniqueIds db) {d d' : DocRecord} (h : d ∈ db.docs)
    (h' : d' ∈ db.docs) (hid : d.id = d'.id) : d = d' := List.inj_on_of_nodup_map hu h h' hid

theorem UniqueIds.getDoc_of_mem {db : Db} (hu : UniqueIds db) {d : DocRecord} (h : d ∈ db.docs)
    (hd : d.deletedAt = none) : getDoc db d.id = some d := by
  cases hg : getDoc db d.id with
  | none =>
      have := List.find?_eq_none.1 hg d h
      simp [DocRecord.isActive, hd] at this
  | some d' =>
      obtain ⟨hm, hid, -⟩ := getDoc_eq_some hg
      rw [hu.eq_of_id hm h hid]

/-- What is read back under distinct ids. -/
theorem UniqueIds.getDoc_iff {db : Db} (hu : UniqueIds db) {id : Bytes} {d : DocRecord} :
    getDoc db id = some d ↔ d ∈ db.docs ∧ d.id = id ∧ d.deletedAt = none := by
  constructor
  · exact getDoc_eq_some
  · rintro ⟨hm, rfl, hdel⟩
    exact hu.getDoc_of_mem hm hdel

theorem mem_updateDocs {db : Db} {p : DocRecord → Bool} {f : DocRecord → DocRecord}
    {d' : DocRecord} :
    d' ∈ (updateDocs db p f).docs ↔ ∃ d ∈ db.docs, (if p d then f d else d) = d' := by
  rw [updateDocs, List.mem_map]

theorem UniqueIds.updateDocs {db : Db} (hu : UniqueIds db) (p : DocRecord → Bool)
    {f : DocRecord → DocRecord} (hf : ∀ d, (f d).id = d.id) : UniqueIds (updateDocs db p f) := by
  have hmap : (Store.updateDocs db p f).docs.map (·.id) = db.docs.map (·.id) := by
    rw [Store.updateDocs, List.map_map]
    refine List.map_congr_left fun d _ => ?_
    by_cases hp : p d = true <;> simp [hp, hf]
  rwa [UniqueIds, hmap]

@[simp] theorem updateDocs_versions (db : Db) (p : DocRecord → Bool) (f : DocRecord → DocRecord) :
    (updateDocs db p f).versions = db.versions := rfl

@[simp] theorem updateDocs_changes (db : Db) (p : DocRecord → Bool) (f : DocRecord → DocRecord) :
    (updateDocs db p f).changes = db.changes := rfl

@[simp] theorem updateDocs_proposals (db : Db) (p : DocRecord → Bool)
    (f : DocRecord → DocRecord) : (updateDocs db p f).proposals = db.proposals := rfl

/-- **What a successful content update has found and written.** -/
theorem updateDocContent_eq_ok {db db' : Db} {id content : Bytes} {expectedVersion : Option ℕ}
    {now rev : ℕ} :
    updateDocContent db id content expectedVersion now = .ok (db', rev) ↔
      ∃ d, db.docs.find? (DocRecord.updatable id expectedVersion) = some d ∧
        rev = d.currentVersion + 1 ∧
        db' = updateDocs db (DocRecord.updatable id expectedVersion)
          (DocRecord.withContent content now) := by
  unfold updateDocContent
  cases h : db.docs.find? (DocRecord.updatable id expectedVersion) with
  | none =>
      constructor
      · intro he
        by_cases hc : expectedVersion.isSome ∧ (getDoc db id).isSome
        · simp [hc] at he
        · simp [hc] at he
      · rintro ⟨d, hd, -⟩
        simp at hd
  | some d =>
      simp only [Except.ok.injEq, Prod.mk.injEq, Option.some.injEq, exists_eq_left']
      constructor
      · rintro ⟨rfl, rfl⟩
        exact ⟨rfl, rfl⟩
      · rintro ⟨rfl, rfl⟩
        exact ⟨rfl, rfl⟩

/-- **What a successful insert has found and written.** -/
theorem createDoc_eq_ok {db db' : Db} {d : DocRecord} :
    createDoc db d = .ok db' ↔
      (∀ d' ∈ db.docs, d'.id ≠ d.id) ∧ (d.parentId = [] ∨ ∃ p ∈ db.docs, p.id = d.parentId) ∧
        { db with docs := db.docs ++ [d] } = db' := by
  rw [createDoc, ite_error_eq_ok, not_or, Except.ok.injEq, not_and_not_right]
  simp only [List.any_eq_true, beq_iff_eq, not_exists, not_and, and_assoc, ne_eq]
  refine and_congr_right fun _ => and_congr_left fun _ => ?_
  rw [← or_iff_not_imp_left]

/-- **What a successful version insert has found and written.** -/
theorem createDocVersion_eq_ok {db db' : Db} {v : DocVersionRecord} :
    createDocVersion db v = .ok db' ↔
      (∀ v' ∈ db.versions, v'.docId = v.docId → v'.rev ≠ v.rev) ∧
        (∃ d ∈ db.docs, d.id = v.docId) ∧ { db with versions := db.versions ++ [v] } = db' := by
  rw [createDocVersion, ite_error_eq_ok, not_or, not_not, Except.ok.injEq]
  simp only [List.any_eq_true, Bool.and_eq_true, beq_iff_eq, not_exists, not_and, and_assoc]

/-- **What a successful versioned update has found and written.** -/
theorem updateDocWithVersion_eq_ok {db db' : Db} {id content author trigger : Bytes}
    {expectedVersion : Option ℕ} {now rev : ℕ} :
    updateDocWithVersion db id content expectedVersion author trigger now = .ok (db', rev) ↔
      ∃ db₁, updateDocContent db id content expectedVersion now = .ok (db₁, rev) ∧
        createDocVersion db₁ ⟨id, rev, content, author, trigger⟩ = .ok db' := by
  simp only [updateDocWithVersion, bind_eq_ok, pure_eq_ok, Prod.exists, Prod.mk.injEq]
  constructor
  · rintro ⟨db₁, rev₁, h₁, db₂, h₂, rfl, rfl⟩
    exact ⟨db₁, h₁, h₂⟩
  · rintro ⟨db₁, h₁, h₂⟩
    exact ⟨db₁, rev, h₁, db', h₂, rfl, rfl⟩

/-- **What a successful generated render has found and written.** -/
theorem applyGeneratedRender_eq_ok {db db' : Db} {id : Bytes} {r : GeneratedRender}
    {now rev : ℕ} :
    applyGeneratedRender db id r now = .ok (db', rev) ↔
      ∃ db₁ db₂, updateDocContent db id r.content r.expectedVersion now = .ok (db₁, rev) ∧
        createDocVersion db₁ ⟨id, rev, r.content, r.author, r.trigger⟩ = .ok db₂ ∧
        updateDocs db₂ (fun d => d.id == id) (DocRecord.withRender r now) = db' := by
  simp only [applyGeneratedRender, bind_eq_ok, pure_eq_ok, Prod.exists, Prod.mk.injEq]
  constructor
  · rintro ⟨db₁, rev₁, h₁, db₂, h₂, h₃, rfl⟩
    exact ⟨db₁, db₂, h₁, h₂, h₃⟩
  · rintro ⟨db₁, db₂, h₁, h₂, h₃⟩
    exact ⟨db₁, rev, h₁, db₂, h₂, h₃, rfl⟩

/-- **What a successful approval has found and written.** -/
theorem approveDocEditProposal_eq_ok {db db' : Db} {id reviewerId : Bytes} {now rev : ℕ}
    (h : approveDocEditProposal db id reviewerId now = .ok (db', rev)) :
    ∃ (p : DocEditProposal) (proposals : List DocEditProposal) (db₁ : Db),
      updateDocContent { db with proposals := proposals } p.docId p.content
        (some p.baseVersion) now = .ok (db₁, rev) ∧
      createDocVersion db₁ ⟨p.docId, rev, p.content, reviewerId, bytes "proposal"⟩ = .ok db' := by
  unfold approveDocEditProposal at h
  split at h
  · split at h
    · simp at h
    · simp at h
  · rename_i p _
    simp only [bind_eq_ok, pure_eq_ok, Prod.exists, Prod.mk.injEq] at h
    obtain ⟨db₁, rev₁, h₁, db₂, h₂, rfl, rfl⟩ := h
    exact ⟨p, _, db₁, h₁, h₂⟩

/-! ### The doc after a content update -/

/-- **The doc after a successful content update.** -/
theorem updateDocContent_getDoc {db db' : Db} {id content : Bytes} {expectedVersion : Option ℕ}
    {now rev : ℕ} (hu : UniqueIds db)
    (h : updateDocContent db id content expectedVersion now = .ok (db', rev)) :
    ∃ d, getDoc db id = some d ∧ rev = d.currentVersion + 1 ∧
      (expectedVersion = none ∨ expectedVersion = some d.currentVersion) ∧
      getDoc db' id = some (d.withContent content now) := by
  obtain ⟨d, hf, hrev, rfl⟩ := updateDocContent_eq_ok.1 h
  have hupd := List.find?_some hf
  have hparts : (d.id = id ∧ d.deletedAt = none) ∧
      (expectedVersion = none ∨ expectedVersion = some d.currentVersion) := by
    simpa [DocRecord.updatable, DocRecord.isActive] using hupd
  obtain ⟨⟨hid, hdel⟩, hexp⟩ := hparts
  have hd : getDoc db id = some d := hid ▸ hu.getDoc_of_mem (List.mem_of_find?_eq_some hf) hdel
  refine ⟨d, hd, hrev, hexp, ?_⟩
  rw [getDoc_updateDocs (f := DocRecord.withContent content now) (fun _ => rfl) (fun _ => rfl), hd, Option.map_some, if_pos hupd]

/-- A content update of one doc leaves the others as they are. -/
theorem updateDocContent_getDoc_of_ne {db db' : Db} {id id' content : Bytes}
    {expectedVersion : Option ℕ} {now rev : ℕ} (hne : id' ≠ id)
    (h : updateDocContent db id content expectedVersion now = .ok (db', rev)) :
    getDoc db' id' = getDoc db id' := by
  obtain ⟨d, -, -, rfl⟩ := updateDocContent_eq_ok.1 h
  rw [getDoc_updateDocs (f := DocRecord.withContent content now) (fun _ => rfl) (fun _ => rfl)]
  cases hg : getDoc db id' with
  | none => rfl
  | some d' =>
      have hid := (getDoc_eq_some hg).2.1
      have : DocRecord.updatable id expectedVersion d' = false := by
        simp [DocRecord.updatable, DocRecord.isActive, hid, hne]
      simp [this]

/-- A content update succeeds on an active doc at the expected version. -/
theorem updateDocContent_of_getDoc {db : Db} {id : Bytes} (content : Bytes)
    {expectedVersion : Option ℕ} (now : ℕ) (hu : UniqueIds db) {d : DocRecord} (hd : getDoc db id = some d)
    (hexp : expectedVersion = none ∨ expectedVersion = some d.currentVersion) :
    ∃ db', updateDocContent db id content expectedVersion now = .ok (db', d.currentVersion + 1) := by
  obtain ⟨hm, hid, hdel⟩ := getDoc_eq_some hd
  have hupd : DocRecord.updatable id expectedVersion d = true := by
    rcases hexp with rfl | rfl <;> simp [DocRecord.updatable, DocRecord.isActive, hid, hdel]
  cases hf : db.docs.find? (DocRecord.updatable id expectedVersion) with
  | none => exact (List.find?_eq_none.1 hf d hm hupd).elim
  | some d' =>
      have hupd' := List.find?_some hf
      have hid' : d'.id = id := by
        simp only [DocRecord.updatable, DocRecord.isActive, Bool.and_eq_true, beq_iff_eq] at hupd'
        exact hupd'.1.1
      obtain rfl := hu.eq_of_id (List.mem_of_find?_eq_some hf) hm (hid'.trans hid.symm)
      exact ⟨_, updateDocContent_eq_ok.2 ⟨d', hf, rfl, rfl⟩⟩

theorem updateDocContent_unique {db db' : Db} {id content : Bytes} {expectedVersion : Option ℕ}
    {now rev : ℕ} (hu : UniqueIds db)
    (h : updateDocContent db id content expectedVersion now = .ok (db', rev)) : UniqueIds db' := by
  obtain ⟨d, -, -, rfl⟩ := updateDocContent_eq_ok.1 h
  exact hu.updateDocs _ fun _ => rfl

/-- **The doc after a successful versioned update**, and the version row it has left. -/
theorem updateDocWithVersion_getDoc {db db' : Db} {id content author trigger : Bytes}
    {expectedVersion : Option ℕ} {now rev : ℕ} (hu : UniqueIds db)
    (h : updateDocWithVersion db id content expectedVersion author trigger now = .ok (db', rev)) :
    ∃ d, getDoc db id = some d ∧ getDoc db' id = some (d.withContent content now) ∧
      db'.versions = db.versions ++ [⟨id, d.currentVersion + 1, content, author, trigger⟩] ∧
      UniqueIds db' := by
  obtain ⟨db₁, h₁, h₂⟩ := updateDocWithVersion_eq_ok.1 h
  obtain ⟨d, hd, rfl, -, hd'⟩ := updateDocContent_getDoc hu h₁
  have hu₁ := updateDocContent_unique hu h₁
  obtain ⟨-, -, rfl⟩ := createDocVersion_eq_ok.1 h₂
  obtain ⟨-, -, -, rfl⟩ := updateDocContent_eq_ok.1 h₁
  exact ⟨d, hd, hd', rfl, hu₁⟩

/-- **The doc after a successful generated render**, and the version row it has left. -/
theorem applyGeneratedRender_getDoc {db db' : Db} {id : Bytes} {r : GeneratedRender}
    {now rev : ℕ} (hu : UniqueIds db) (h : applyGeneratedRender db id r now = .ok (db', rev)) :
    ∃ d, getDoc db id = some d ∧
      getDoc db' id = some ((d.withContent r.content now).withRender r now) ∧
      db'.versions = db.versions ++ [⟨id, d.currentVersion + 1, r.content, r.author, r.trigger⟩] ∧
      UniqueIds db' := by
  obtain ⟨db₁, db₂, h₁, h₂, rfl⟩ := applyGeneratedRender_eq_ok.1 h
  obtain ⟨d, hd, rfl, -, hd'⟩ := updateDocContent_getDoc hu h₁
  obtain ⟨-, -, rfl⟩ := createDocVersion_eq_ok.1 h₂
  have hid := (getDoc_eq_some hd').2.1
  refine ⟨d, hd, ?_, ?_, ?_⟩
  · have hd₂ : getDoc { db₁ with versions := db₁.versions ++
        [⟨id, d.currentVersion + 1, r.content, r.author, r.trigger⟩] } id =
        some (d.withContent r.content now) := hd'
    rw [getDoc_updateDocs (f := DocRecord.withRender r now) (fun _ => rfl) (fun _ => rfl), hd₂]
    simp [hid]
  · obtain ⟨-, -, -, rfl⟩ := updateDocContent_eq_ok.1 h₁
    rfl
  · exact (show UniqueIds { db₁ with versions := _ } from updateDocContent_unique hu h₁).updateDocs
      _ fun _ => rfl

/-- A render applied to the doc just read meets no version conflict. -/
theorem applyGeneratedRender_ne_conflict {db : Db} {id : Bytes} {r : GeneratedRender} {now : ℕ}
    {d : DocRecord} (hu : UniqueIds db) (hd : getDoc db id = some d)
    (hexp : r.expectedVersion = some d.currentVersion) :
    applyGeneratedRender db id r now ≠ .error .versionConflict := by
  obtain ⟨db₁, h₁⟩ := updateDocContent_of_getDoc r.content now hu hd (Or.inr hexp)
  intro h
  simp only [applyGeneratedRender, h₁, bind, Except.bind, createDocVersion] at h
  by_cases hc : db₁.versions.any (fun v' => v'.docId == id && v'.rev == d.currentVersion + 1) = true ∨
      ¬ db₁.docs.any (fun d => d.id == id) = true
  · rw [if_pos hc] at h
    simp at h
  · rw [if_neg hc] at h
    simp [pure, Except.pure] at h

end WiseLabz.Store
