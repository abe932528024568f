/-
**The tree of docs: creating, moving, deleting, restoring, importing and purging.**

An active doc may lie under another one.  The store calls that write the tree lock it first, check
the parent they are given by a walk up from it and the subtree by a bounded walk down, and write in
one transaction: as in the tables' own module, a call returns the tables after it or an error.

Main definitions:

* `Store.validateDocParent` — **the check of a parent**: `Store.climb` up, `Store.subtreeHeight` down;
* `Store.createHumanDoc`, `Store.updateDocMetadata`, `Store.softDeleteDoc`,
  `Store.restoreDeletedDoc`, `Store.purgeDeletedDocs`, `Store.importDocs` — the calls.

Main results:

* `Store.createHumanDoc_eq_ok`, `Store.updateDocMetadata_eq_ok`, `Store.softDeleteDoc_eq_ok`,
  `Store.restoreDeletedDoc_eq_ok` — what a successful call has found and written.
-/

import WiseLabz.Store.Docs
import WiseLabz.Lib.Closure

set_option relaxedAutoImplicit false
set_option autoImplicit false

namespace WiseLabz.Store

open Lib

/-! ### The check of a parent -/

/-- What is wrong with a parent: `ErrDocHierarchy` with its texts. -/
inductive HierarchyError
  /-- `cycle` -/
  | cycle
  /-- `parent not found`, also for a parent of another service -/
  | parentNotFound
  /-- `human lab docs require a human parent` -/
  | humanParent
  /-- `maximum depth is five` -/
  | maxDepth
  /-- `subtree exceeds maximum depth five` -/
  | subtreeDepth
  deriving DecidableEq, Repr

/-- The errors of the calls. -/
inductive LifecycleError
  | store (e : StoreError)
  | hierarchy (e : HierarchyError)
  | generatedDocExists
  deriving DecidableEq, Repr

/-- The walk up from the parent of `d`: it returns the depth that `d` would have. -/
def climb (db : Db) (d : DocRecord) (depth : ℕ) (seen : List Bytes) (id : Bytes) :
    Except HierarchyError ℕ :=
  if id = [] then .ok depth
  else if id ∈ seen then .error .cycle
  else
    match getDoc db id with
    | none => .error .parentNotFound
    | some parent =>
        if parent.serviceId ≠ d.serviceId then .error .parentNotFound
        else if d.serviceId = [] ∧ d.origin = .human ∧ parent.origin ≠ .human then
          .error .humanParent
        else if h : depth + 1 > 5 then .error .maxDepth
        else climb db d (depth + 1) (id :: seen) parent.parentId
  termination_by 5 - depth

@[simp] theorem climb_nil (db : Db) (d : DocRecord) (depth : ℕ) (seen : List Bytes) :
    climb db d depth seen [] = .ok depth := by
  rw [climb, if_pos rfl]

/-- The ids of the active docs under some docs. -/
def activeChildren (db : Db) (ids : List Bytes) : List Bytes :=
  (db.docs.filter fun d => d.deletedAt.isNone && d.parentId != [] && ids.contains d.parentId).map
    (·.id)

/-- The number of levels from some docs down, of at most `fuel` further ones. -/
def heightFrom (db : Db) : ℕ → List Bytes → ℕ
  | 0, _ => 1
  | fuel + 1, ids =>
      match activeChildren db ids with
      | [] => 1
      | c :: cs => heightFrom db fuel (c :: cs) + 1

/-- The height of the active subtree, `1` for a doc that does not exist: the recursive query goes
down to a depth of six. -/
def subtreeHeight (db : Db) (id : Bytes) : ℕ :=
  if (getDoc db id).isSome then heightFrom db 5 [id] else 1

/-- **`validateDocParent`**: whether `d` may lie under the parent. -/
def validateDocParent (db : Db) (d : DocRecord) (parentId : Bytes) :
    Except HierarchyError Unit := do
  let depth ← climb db d 1 [d.id] parentId
  if depth + subtreeHeight db d.id - 1 > 5 then .error .subtreeDepth else return ()

/-! ### Creating and moving -/

/-- What a caller gives of a new human doc; with an empty id the row gets a new one. -/
structure HumanDoc where
  id : Bytes
  title : Bytes
  serviceId : Bytes
  parentId : Bytes
  content : Bytes
  createdBy : Bytes

/-- Its row: of human origin, and a lab doc unless it has a service. -/
def HumanDoc.toRecord (d : HumanDoc) (now : ℕ) : DocRecord where
  id := d.id
  title := d.title
  kind := if d.serviceId = [] then .lab else .service
  serviceId := d.serviceId
  content := d.content
  currentVersion := 1
  updatedAt := now
  origin := .human
  templateId := []
  lastSyncedAt := none
  genKeys := none
  parentId := d.parentId
  deletedAt := none
  createdBy := d.createdBy
  topologyFingerprint := []

/-- The row under a new id, if it has none. -/
def DocRecord.withNewId (newId : Bytes) (d : DocRecord) : DocRecord :=
  { d with id := if d.id = [] then newId else d.id }

/-- The row and its first version. -/
def insertHumanDoc (db : Db) (d : DocRecord) (newId trigger : Bytes) :
    Except LifecycleError Db := do
  let db ← (createDoc db (d.withNewId newId)).mapError .store
  (createDocVersion db ⟨(d.withNewId newId).id, 1, d.content, d.createdBy, trigger⟩).mapError .store

/-- **`CreateHumanDoc`.** -/
def createHumanDoc (db : Db) (d : HumanDoc) (newId : Bytes) (now : ℕ) :
    Except LifecycleError Db := do
  (validateDocParent db (d.toRecord now) d.parentId).mapError .hierarchy
  insertHumanDoc db (d.toRecord now) newId (bytes "create")

/-- A doc under another title and parent. -/
def DocRecord.withMetadata (title parentId : Bytes) (now : ℕ) (d : DocRecord) : DocRecord :=
  { d with title := title, parentId := parentId, updatedAt := now }

/-- **`UpdateDocMetadata`**: renames or re-parents an active doc. -/
def updateDocMetadata (db : Db) (id : Bytes) (title parentId : Option Bytes) (now : ℕ) :
    Except LifecycleError Db :=
  match getDoc db id with
  | none => .error (.store .notFound)
  | some d =>
      let title := title.getD d.title
      match parentId with
      | none =>
          .ok (updateDocs db (DocRecord.isActive id) (DocRecord.withMetadata title d.parentId now))
      | some parentId => do
          (validateDocParent db { d with title := title } parentId).mapError .hierarchy
          return updateDocs db (DocRecord.isActive id) (DocRecord.withMetadata title parentId now)

/-! ### Deleting, restoring and purging -/

/-- `d.parent_id = t.id` -/
def isChildOf (t d : DocRecord) : Bool := d.parentId != [] && d.parentId == t.id

/-- The rows with a deletion mark under the one with the id, itself included.  The recursive query
meets each row once where the rows form a forest. -/
def markedSubtree (db : Db) (id : Bytes) (mark : Option Bytes) : List DocRecord :=
  closure (db.docs.filter fun d => d.deletedAt == mark) isChildOf
    (db.docs.filter fun d => d.id == id && d.deletedAt == mark)

/-- `d.id IN (SELECT id FROM …)` -/
def DocRecord.isIn (rows : List DocRecord) (d : DocRecord) : Bool := rows.any (·.id == d.id)

/-- A doc with another deletion mark. -/
def DocRecord.withDeletedAt (mark : Option Bytes) (d : DocRecord) : DocRecord :=
  { d with deletedAt := mark }

/-- **`SoftDeleteDoc`**: marks the active subtree with a shared deletion time. -/
def softDeleteDoc (db : Db) (id stamp : Bytes) : Except LifecycleError Db :=
  if (getDoc db id).isNone then .error (.store .notFound)
  else .ok (updateDocs db (DocRecord.isIn (markedSubtree db id none))
    (DocRecord.withDeletedAt (some stamp)))

/-- `GetDeletedDoc`. -/
def getDeletedDoc (db : Db) (id : Bytes) : Option DocRecord :=
  db.docs.find? fun d => d.id == id && d.deletedAt.isSome

/-- A doc under another parent. -/
def DocRecord.withParent (parentId : Bytes) (d : DocRecord) : DocRecord :=
  { d with parentId := parentId }

/-- A doc that is to be restored, without a parent that is not active. -/
def detachFromInactive (db : Db) (d : DocRecord) : Db :=
  if d.parentId ≠ [] ∧ (getDoc db d.parentId).isNone then
    updateDocs db (fun d' => d'.id == d.id) (DocRecord.withParent [])
  else db

/-- A generated lab doc: one of the generator's. -/
def DocRecord.isGeneratedLab (d : DocRecord) : Bool := d.kind == .lab && d.origin != .human

/-- Whether a doc of the batch would restore a second generated lab doc of some title. -/
def clashes (db : Db) (batch : List DocRecord) : Bool :=
  batch.any fun r => r.isGeneratedLab &&
    db.docs.any fun a => a.title == r.title && a.isGeneratedLab && a.deletedAt.isNone

/-- **`RestoreDeletedDoc`**: restores the selected subtree of its deletion batch. -/
def restoreDeletedDoc (db : Db) (id : Bytes) : Except LifecycleError Db :=
  match getDeletedDoc db id with
  | none => .error (.store .notFound)
  | some d =>
      let db := detachFromInactive db d
      let batch := markedSubtree db id d.deletedAt
      if clashes db batch then .error .generatedDocExists
      else
        let db := updateDocs db (DocRecord.isIn batch) (DocRecord.withDeletedAt none)
        match getDoc db id with
        | none => .error (.store .notFound)
        | some restored => do
            (validateDocParent db restored restored.parentId).mapError .hierarchy
            return db

/-- Whether a purge deletes the row: `deleted_at IS NOT NULL AND deleted_at < ?`, on texts. -/
def DocRecord.isPurged (cutoff : Bytes) (d : DocRecord) : Bool := d.deletedAt.any (· < cutoff)

/-- `ON DELETE SET NULL`: a doc whose parent is gone has none. -/
def DocRecord.orphanedIn (rows : List DocRecord) (d : DocRecord) : DocRecord :=
  if rows.any (·.id == d.parentId) then d else d.withParent []

/-- Docs are removed, with their versions and proposals. -/
def removeDocs (db : Db) (gone : DocRecord → Bool) : Db :=
  let kept := db.docs.filter fun d => !gone d
  { db with
    docs := kept.map (DocRecord.orphanedIn kept)
    versions := db.versions.filter fun v => kept.any (·.id == v.docId)
    proposals := db.proposals.filter fun p => kept.any (·.id == p.docId) }

/-- **`PurgeDeletedDocs`**, one statement of it: removes a batch of the trash older than the
cutoff. -/
def purgeDeletedDocs (db : Db) (cutoff : Bytes) (batch : List Bytes) : Db :=
  removeDocs db fun d => d.isPurged cutoff && batch.contains d.id

/-! ### Importing -/

/-- `SiblingTitleTaken`: whether an active doc in the same scope and parent has the title. -/
def siblingTitleTaken (db : Db) (serviceId parentId title : Bytes) : Bool :=
  db.docs.any fun d =>
    d.deletedAt.isNone && d.serviceId == serviceId && d.parentId == parentId && d.title == title

/-- The `i`-th title that an import tries. -/
def titleCandidate (title : Bytes) : ℕ → Bytes
  | 0 => title
  | 1 => title ++ bytes " (imported)"
  | i + 2 => title ++ bytes (" (imported " ++ toString (i + 2) ++ ")")

/-- `ImportedTitle`: the first title that is not taken.  As the candidates differ, one of them is
free after as many as there are docs. -/
def importedTitle (db : Db) (serviceId parentId title : Bytes) : Bytes :=
  (((List.range (db.docs.length + 1)).map (titleCandidate title)).find?
    fun t => !siblingTitleTaken db serviceId parentId t).getD title

/-- One doc of an import. -/
def importDoc (now : ℕ) (db : Db) (d : HumanDoc × Bytes) : Except LifecycleError Db := do
  (validateDocParent db (d.1.toRecord now) d.1.parentId).mapError .hierarchy
  let title := importedTitle db d.1.serviceId d.1.parentId d.1.title
  insertHumanDoc db { d.1.toRecord now with title := title } d.2 (bytes "import")

/-- **`ImportDocs`**: creates human docs, each with the new id for a row without one, in one
transaction. -/
def importDocs (db : Db) (docs : List (HumanDoc × Bytes)) (now : ℕ) : Except LifecycleError Db :=
  docs.foldlM (importDoc now) db

/-! ### What a successful call has done -/

/-- **What a successful insert of a human doc has found and written.** -/
theorem insertHumanDoc_eq_ok {db db' : Db} {d : DocRecord} {newId trigger : Bytes}
    (h : insertHumanDoc db d newId trigger = .ok db') :
    (∀ d' ∈ db.docs, d'.id ≠ (d.withNewId newId).id) ∧
      (∀ v ∈ db.versions, v.docId = (d.withNewId newId).id → v.rev ≠ 1) ∧
      db' = { db with
        docs := db.docs ++ [d.withNewId newId]
        versions := db.versions ++
          [⟨(d.withNewId newId).id, 1, d.content, d.createdBy, trigger⟩] } := by
  obtain ⟨db₁, h₁, h₂⟩ := bind_eq_ok.1 h
  rw [mapError_eq_ok] at h₁ h₂
  obtain ⟨hfresh, -, rfl⟩ := createDoc_eq_ok.1 h₁
  obtain ⟨hrev, -, rfl⟩ := createDocVersion_eq_ok.1 h₂
  exact ⟨hfresh, hrev, rfl⟩

/-- **What a successful creation has found and written.** -/
theorem createHumanDoc_eq_ok {db db' : Db} {d : HumanDoc} {newId : Bytes} {now : ℕ} :
    createHumanDoc db d newId now = .ok db' ↔
      validateDocParent db (d.toRecord now) d.parentId = .ok () ∧
        insertHumanDoc db (d.toRecord now) newId (bytes "create") = .ok db' := by
  rw [createHumanDoc, check_bind_eq_ok, mapError_eq_ok]

/-- **What a successful change of a doc's title or parent has found and written.** -/
theorem updateDocMetadata_eq_ok {db db' : Db} {id : Bytes} {title parentId : Option Bytes}
    {now : ℕ} (h : updateDocMetadata db id title parentId now = .ok db') :
    ∃ d parent, getDoc db id = some d ∧
      db' = updateDocs db (DocRecord.isActive id)
        (DocRecord.withMetadata (title.getD d.title) parent now) ∧
      (parent = d.parentId ∨
        validateDocParent db { d with title := title.getD d.title } parent = .ok ()) := by
  unfold updateDocMetadata at h
  cases hd : getDoc db id with
  | none => simp [hd] at h
  | some d =>
      cases parentId with
      | none =>
          simp only [hd, Except.ok.injEq] at h
          exact ⟨d, d.parentId, rfl, h.symm, Or.inl rfl⟩
      | some parent =>
          simp only [hd, check_bind_eq_ok, mapError_eq_ok, pure_eq_ok] at h
          obtain ⟨hvalid, hret⟩ := h
          exact ⟨d, parent, rfl, hret.symm, Or.inr hvalid⟩

/-- **What a successful deletion has found and written.** -/
theorem softDeleteDoc_eq_ok {db db' : Db} {id stamp : Bytes} :
    softDeleteDoc db id stamp = .ok db' ↔
      (getDoc db id).isSome ∧
        updateDocs db (DocRecord.isIn (markedSubtree db id none))
          (DocRecord.withDeletedAt (some stamp)) = db' := by
  rw [softDeleteDoc, ite_error_eq_ok, Except.ok.injEq, Option.isNone_iff_eq_none, ← ne_eq,
    ← Option.isSome_iff_ne_none]

/-- **What a successful restoration has found and written.** -/
theorem restoreDeletedDoc_eq_ok {db db' : Db} {id : Bytes} (h : restoreDeletedDoc db id = .ok db') :
    ∃ d, getDeletedDoc db id = some d ∧
      db' = updateDocs (detachFromInactive db d)
        (DocRecord.isIn (markedSubtree (detachFromInactive db d) id d.deletedAt))
        (DocRecord.withDeletedAt none) ∧
      ∃ restored, getDoc db' id = some restored ∧
        validateDocParent db' restored restored.parentId = .ok () := by
  unfold restoreDeletedDoc at h
  cases hd : getDeletedDoc db id with
  | none => simp [hd] at h
  | some d =>
      simp only [hd, ite_error_eq_ok] at h
      obtain ⟨-, h⟩ := h
      split at h
      · simp at h
      · rename_i restored hrestored
        simp only [check_bind_eq_ok, mapError_eq_ok, pure_eq_ok] at h
        obtain ⟨hvalid, rfl⟩ := h
        exact ⟨d, rfl, rfl, restored, hrestored, hvalid⟩

end WiseLabz.Store
