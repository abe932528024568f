/-
**Saving a doc while others do.**

The content of a generated doc is saved by versioned saves and approved proposals, each one
transaction that compares the version, and by four operations of the engine that read the doc, make
a content of what they have read, and write it in later calls of the store: a sync, a generation
through a template, the resolution of a change, and the generator of the lab topology doc.  Some of
their writes compare the version and some do not.  A step here is one call of the store.

Main definitions:

* `Doc.SavePlace`, `Doc.SavePlace.step` — where an operation is, and **its next call**;
* `Doc.saves` — the writers of one doc, in any order;
* `Doc.tracked` — what an operation may not change once its reading is overtaken;
* `Doc.SavesKept` — what is claimed of a step;
* `Doc.inTurn` — the condition on a step.

Main results:

* `Doc.resolveChange_of_write` — a resolution that nobody comes between is the one transaction.
-/

import WiseLabz.Lib.Machine
import WiseLabz.Lib.Versioned
import WiseLabz.Doc.Changes
import WiseLabz.Doc.Engine
import WiseLabz.Doc.LabTopology

set_option relaxedAutoImplicit false
set_option autoImplicit false

namespace WiseLabz.Doc

open Lib Store

/-! ### Operations -/

/-- The decision of `ResolveChange`, applied to the doc as it was read. -/
def resolveWrite (db : Db) (d : DocRecord) (c : ChangeRecord) (diff : ChangeDiff)
    (action : ResolveAction) (userId : Bytes) (now : ℕ) : Except ResolveError Db :=
  if c.changeType = changeTypeDocAdopt then
    match action with
    | .keep => .ok db
    | .accept =>
        (ofStore (applyGeneratedRender db d.id
          { content := diff.generated
            genKeys := blockKeys (blocksOf (parseBlocks diff.generated))
            expectedVersion := some d.currentVersion, author := userId
            trigger := bytes "sync-resolve", origin := some .generated
            templateId := none } now)).map (·.1)
  else
    let segs := parseBlocks d.content
    match blockIndex segs diff.key, action with
    | none, _ => .error .blockGone
    | some i, .accept =>
        let content := renderSegments (segs.set i (.block (newBlock diff.key diff.generated)))
        (ofStore (updateDocWithVersion db d.id content (some d.currentVersion) userId
          (bytes "sync-resolve") now)).map (·.1)
    | some i, .keep =>
        let body := (segs[i]?.bind Segment.block?).elim [] (·.body)
        let content := renderSegments (segs.set i (.text body))
        (ofStore (updateDocWithVersion db d.id content (some d.currentVersion) userId
          (bytes "sync-resolve") now)).map (·.1)

/-- Whether a change can be resolved. -/
def resolvable (c : ChangeRecord) : Bool :=
  c.status = .new && (c.changeType = changeTypeDocConflict || c.changeType = changeTypeDocAdopt)

/-- **A resolution that nobody comes between.** -/
theorem resolveChange_of_write {db : Db} {c : ChangeRecord} {diff : ChangeDiff} {d : DocRecord}
    (hdiff : c.diff = some diff) (hc : resolvable c = true)
    (hd : getDoc db diff.docId = some d) (action : ResolveAction) (userId : Bytes) (now : ℕ) :
    resolveChange db c action userId now =
      (resolveWrite db d c diff action userId now).map fun db =>
        updateChangeStatus db c.id .acknowledged := by
  rw [resolvable, Bool.and_eq_true, Bool.or_eq_true, decide_eq_true_eq, decide_eq_true_eq,
    decide_eq_true_eq] at hc
  have hopen : ¬(c.status ≠ .new ∨
      (c.changeType ≠ changeTypeDocConflict ∧ c.changeType ≠ changeTypeDocAdopt)) := by
    rw [not_or, not_not, not_and_or, not_not, not_not]
    exact hc
  have hmap : ∀ x : Except ResolveError Db,
      (do let db ← x; return updateChangeStatus db c.id .acknowledged) =
        x.map fun db => updateChangeStatus db c.id .acknowledged := by
    intro x
    cases x <;> rfl
  rw [resolveChange, hdiff]
  dsimp only
  rw [if_neg hopen, hd]
  exact hmap _

/-- **Where an operation is**, with what it remembers beside the doc that it has read. -/
inductive SavePlace
  /-- `RegenerateForConnector` has listed the doc; before `GetDocLock`. -/
  | listed (r : Render)
  /-- `upgradeLegacyDoc`, before `GetDocVersions`. -/
  | legacy (r : Render)
  /-- Before `SetDocOrigin`. -/
  | adopting (r : Render)
  /-- Before `TouchDocSynced`. -/
  | touching (r : Render) (conflicts : List Conflict)
  /-- Before `ApplyGeneratedRender` of a sync. -/
  | rendering (content : Bytes) (r : Render) (conflicts : List Conflict)
  /-- `raiseDocChange`: before `GetLatestChangeByPattern`, `UpdateChangeStatus` and
  `CreateChange`. -/
  | raising (changeType : Bytes) (diff : ChangeDiff) (diffs : List ChangeDiff)
  | dismissing (changeType : Bytes) (latest : ℕ) (diff : ChangeDiff) (diffs : List ChangeDiff)
  | recording (changeType : Bytes) (diff : ChangeDiff) (diffs : List ChangeDiff)
  /-- `GenerateFromTemplate`, before `ApplyGeneratedRender`. -/
  | templating (templateId : Bytes) (r : Render)
  /-- `ResolveChange` has read the doc; before its write, and before `UpdateChangeStatus`. -/
  | resolving (c : ChangeRecord) (diff : ChangeDiff) (action : ResolveAction) (userId : Bytes)
  | acknowledging (changeId : ℕ)
  /-- `generateLabTopology`. -/
  | lab (call : LabCall)
  | returned

/-- What a call depends on besides the tables: whether it goes through, whether the doc is locked,
the id of a new row, and the clock. -/
structure SaveChance where
  io : Bool
  locked : Bool
  newId : ℕ
  now : ℕ
  deriving DecidableEq, Repr

/-- The changes that are still to be raised. -/
def raiseAll (changeType : Bytes) : List ChangeDiff → SavePlace
  | [] => .returned
  | diff :: diffs => .raising changeType diff diffs

/-- The change that offers the generated layout. -/
def adoptDiff (d : DocRecord) (r : Render) : ChangeDiff where
  docId := d.id
  key := []
  human := d.content
  generated := renderFresh r.blocks
  genHash := hashBody (renderFresh r.blocks)

/-- The change of a conflict. -/
def conflictDiff (d : DocRecord) (c : Conflict) : ChangeDiff where
  docId := d.id
  key := c.key
  human := c.human
  generated := c.generated.body
  genHash := c.generated.hash

/-- `syncDoc`, up to its first call. -/
def syncPlace (d : DocRecord) (r : Render) : SavePlace :=
  match baselineKeys d with
  | none => .legacy r
  | some prev =>
      let (out, conflicts) := merge (parseBlocks d.content) prev r.blocks
      let content := renderSegments out
      if content = d.content then .touching r conflicts else .rendering content r conflicts

/-- The row of a change. -/
def docChange (d : DocRecord) (changeType : Bytes) (diff : ChangeDiff) (id now : ℕ) : ChangeRecord where
  id := id
  serviceId := d.serviceId
  changeType := changeType
  diff := some diff
  status := .new
  detectedAt := now
  affectedDocIds := [d.id]
  patternId := docPattern changeType d.id diff.key

/-- **The next call** of an operation that has read the doc `d`: the tables after it and where the
operation is then. -/
def SavePlace.step (db : Db) (d : DocRecord) (c : SaveChance) : SavePlace → Db × SavePlace
  | .listed r => (db, if c.locked then .returned else syncPlace d r)
  | .legacy r =>
      match getDocVersions db d.id with
      | v :: _ =>
          (db, if v.author ≠ [] then .adopting r else .rendering (renderFresh r.blocks) r [])
      | [] => (db, .rendering (renderFresh r.blocks) r [])
  | .adopting r =>
      match setDocOrigin db d.id .human with
      | .ok db' => (db', .raising changeTypeDocAdopt (adoptDiff d r) [])
      | .error _ => (db, .returned)
  | .touching r conflicts =>
      (touchDocSynced db d.id r.keys c.now,
        raiseAll changeTypeDocConflict (conflicts.map (conflictDiff d)))
  | .rendering content r conflicts =>
      match applySync db d content r c.now with
      | .ok (db', true) => (db', raiseAll changeTypeDocConflict (conflicts.map (conflictDiff d)))
      | .ok (db', false) => (db', .returned)
      | .error _ => (db, .returned)
  | .raising changeType diff diffs =>
      match getLatestChangeByPattern db (docPattern changeType d.id diff.key) with
      | none => (db, .recording changeType diff diffs)
      | some latest =>
          (db,
            if latest.diff.map (·.genHash) = some diff.genHash then raiseAll changeType diffs
            else if latest.status = .new then .dismissing changeType latest.id diff diffs
            else .recording changeType diff diffs)
  | .dismissing changeType latest diff diffs =>
      (updateChangeStatus db latest .dismissed, .recording changeType diff diffs)
  | .recording changeType diff diffs =>
      (createChange db (docChange d changeType diff c.newId c.now), raiseAll changeType diffs)
  | .templating templateId r =>
      match applyGeneratedRender db d.id
          { content := templateContent d r, genKeys := r.keys
            expectedVersion := some d.currentVersion, author := [], trigger := bytes "template"
            origin := some .generated, templateId := some templateId } c.now with
      | .ok (db', _) => (db', .returned)
      | .error _ => (db, .returned)
  | .resolving change diff action userId =>
      match resolveWrite db d change diff action userId c.now with
      | .ok db' => (db', .acknowledging change.id)
      | .error _ => (db, .returned)
  | .acknowledging changeId => (updateChangeStatus db changeId .acknowledged, .returned)
  | .lab call => ((labStep db call [] c.now).1, .lab (labStep db call [] c.now).2)
  | .returned => (db, .returned)

/-- Where an operation is after a call that does not go through.  The generator ignores the error of
the version row. -/
def SavePlace.afterFailure : SavePlace → SavePlace
  | .lab (.read docId _ fingerprint _) => .lab (.versioned docId fingerprint)
  | _ => .returned

/-! ### The writers of one doc -/

/-- The version and the content of a row. -/
def docCell (d : DocRecord) : Versioned Bytes := ⟨d.currentVersion, d.content⟩

/-- What a reader of the doc sees. -/
def cellOf (db : Db) (id : Bytes) : Option (Versioned Bytes) := (getDoc db id).map docCell

/-- An operation: the row that it has read, where it is, and, not stored anywhere, the version and
content that it knows of and whether another write of the content has come since. -/
structure SaveOp where
  doc : DocRecord
  place : SavePlace
  held : Held Bytes

def SaveOp.overtake (op : SaveOp) : SaveOp := { op with held := op.held.overtake }

/-- The tables, the operations, and, not stored anywhere, what the doc has shown. -/
structure SaveState where
  db : Db
  ops : List SaveOp
  shown : List (Versioned Bytes)

/-- What happens. -/
inductive SaveEvent
  /-- `UpdateDocWithVersion` with an expected version. -/
  | save (content : Bytes) (expectedVersion : ℕ) (author trigger : Bytes) (now : ℕ)
  /-- Proposals are made, superseded or rejected. -/
  | propose (proposals : List DocEditProposal)
  /-- `ApproveDocEditProposal`. -/
  | approve (proposalId reviewerId : Bytes) (now : ℕ)
  /-- An operation reads the doc. -/
  | sync (r : Render)
  | generate (templateId connectorId : Bytes) (r : Render)
  | resolve (c : ChangeRecord) (action : ResolveAction) (userId : Bytes)
  | draw (content fingerprint : Bytes) (skipIfUnchanged : Bool)
  /-- The next call of an operation. -/
  | step (i : ℕ) (c : SaveChance)

/-- The tables are replaced; a write of the content overtakes the operations. -/
def SaveState.written (id : Bytes) (s : SaveState) (db : Db) : SaveState :=
  if cellOf db id = cellOf s.db id then { s with db := db }
  else { db := db, ops := s.ops.map SaveOp.overtake, shown := s.shown ++ (cellOf db id).toList }

/-- An operation has read the row. -/
def SaveState.start (s : SaveState) (d : DocRecord) (place : SavePlace) : SaveState :=
  { s with ops := s.ops ++ [⟨d, place, ⟨docCell d, false⟩⟩] }

/-- What the operation knows of after a call: what it reads again, or what it has written. -/
def SaveOp.heldAfter (id : Bytes) (op : SaveOp) (db db' : Db) : Held Bytes :=
  match op.place, cellOf db' id with
  | .lab (.found ..), some cell => ⟨cell, false⟩
  | _, some cell =>
      if cellOf db' id = cellOf db id then op.held else { op.held with read := cell }
  | _, none => op.held

/-- The next call of an operation. -/
def SaveState.stepOp (id : Bytes) (s : SaveState) (i : ℕ) (op : SaveOp) (c : SaveChance) :
    SaveState :=
  if c.io then
    let p := op.place.step s.db op.doc c
    let s' := s.written id p.1
    { s' with
      ops := s'.ops.set i { op with place := p.2, held := op.heldAfter id s.db p.1 } }
  else { s with ops := s.ops.set i { op with place := op.place.afterFailure } }

/-- **What happens next.** -/
def SaveState.next (id : Bytes) (s : SaveState) : SaveEvent → Option SaveState
  | .save content expectedVersion author trigger now =>
      match updateDocWithVersion s.db id content (some expectedVersion) author trigger now with
      | .ok (db, _) => some (s.written id db)
      | .error _ => some s
  | .propose proposals => some { s with db := { s.db with proposals := proposals } }
  | .approve proposalId reviewerId now =>
      match s.db.proposals.find? fun p => p.id == proposalId && p.status == .pending with
      | none => some s
      | some p =>
          if p.docId = id then
            match approveDocEditProposal s.db proposalId reviewerId now with
            | .ok (db, _) => some (s.written id db)
            | .error _ => some s
          else none
  | .sync r =>
      match getDoc s.db id with
      | none => none
      | some d => if d.origin = .human then none else some (s.start d (.listed r))
  | .generate templateId connectorId r =>
      match (listDocsByService s.db connectorId).find? fun d => d.origin != .human with
      | none => none
      | some d => if d.id = id then some (s.start d (.templating templateId r)) else none
  | .resolve c action userId =>
      match c.diff, getDoc s.db id with
      | some diff, some d =>
          if resolvable c && diff.docId = id then some (s.start d (.resolving c diff action userId))
          else none
      | _, _ => none
  | .draw content fingerprint skipIfUnchanged =>
      match (listAllDocs s.db labTopologyTitle 0 50).find? isTopologyDoc with
      | none => none
      | some d =>
          if d.id = id then
            some (s.start d (.lab (labStep s.db (.rendered content fingerprint skipIfUnchanged)
              [] 0).2))
          else none
  | .step i c =>
      match s.ops[i]? with
      | none => none
      | some op => some (s.stepOp id i op c)

/-- A doc that is there, before the first operation. -/
def saves (id : Bytes) : Machine SaveState SaveEvent where
  init s := UniqueIds s.db ∧ s.ops = [] ∧
    ∃ d, getDoc s.db id = some d ∧ s.shown = [docCell d]
  step s ev t := s.next id ev = some t

/-! ### What is claimed -/

/-- The fields of a doc that a save, a render or the bookkeeping of one writes. -/
structure SavedDoc where
  content : Bytes
  currentVersion : ℕ
  genKeys : Option (List Bytes)
  origin : DocOrigin
  templateId : Bytes
  topologyFingerprint : Bytes
  deriving DecidableEq, Repr

def savedDoc (d : DocRecord) : SavedDoc where
  content := d.content
  currentVersion := d.currentVersion
  genKeys := d.genKeys
  origin := d.origin
  templateId := d.templateId
  topologyFingerprint := d.topologyFingerprint

/-- The doc, its version history, and the proposals. -/
structure Tracked where
  doc : Option SavedDoc
  versions : List DocVersionRecord
  proposals : List DocEditProposal
  deriving DecidableEq, Repr

def tracked (db : Db) (id : Bytes) : Tracked where
  doc := (getDoc db id).map savedDoc
  versions := db.versions.filter fun v => v.docId == id
  proposals := db.proposals

/-- The write replaces the content that it is based on: that of the expected version or of the base
version, or the one that its operation knows of. -/
def BasedOn (s : SaveState) (cell : Versioned Bytes) : SaveEvent → Prop
  | .save _ expectedVersion _ _ _ =>
      expectedVersion = cell.version ∧
        ∀ x ∈ s.shown, x.version = expectedVersion → x.value = cell.value
  | .approve proposalId _ _ => ∃ p ∈ s.db.proposals, p.id = proposalId ∧ p.status = .pending ∧
      p.baseVersion = cell.version ∧
        ∀ x ∈ s.shown, x.version = p.baseVersion → x.value = cell.value
  | .step i _ => ∃ op, s.ops[i]? = some op ∧ op.held.read.value = cell.value
  | _ => False

/-- Another write of the content has come since what the writer is based on. -/
def Overtaken (s : SaveState) (cell : Versioned Bytes) : SaveEvent → Prop
  | .save _ expectedVersion _ _ _ => expectedVersion ≠ cell.version
  | .approve proposalId _ _ => ∀ p ∈ s.db.proposals, p.id = proposalId → p.status = .pending →
      p.baseVersion ≠ cell.version
  | .step i _ => ∃ op, s.ops[i]? = some op ∧ op.held.overtaken = true
  | _ => False

/-- **What is claimed of a step.** -/
structure SavesKept (id : Bytes) (s : SaveState) (ev : SaveEvent) (t : SaveState) : Prop where
  /-- A write of the content replaces what it is based on. -/
  based : ∀ cell, cellOf s.db id = some cell → cellOf t.db id ≠ some cell → BasedOn s cell ev
  /-- An overtaken writer fails or skips. -/
  skips : ∀ cell, cellOf s.db id = some cell → Overtaken s cell ev →
    tracked t.db id = tracked s.db id
  /-- All readers of a version see the same content. -/
  agree : ∀ x ∈ t.shown, ∀ y ∈ t.shown, x.version = y.version → x = y

/-- The condition on a call: one that does not compare versions is not overtaken, or writes what is
there already; and no content is rewritten under its version. -/
def SavePlace.inTurn (db : Db) (d : DocRecord) (overtaken : Bool) : SavePlace → Bool
  | .adopting _ => !overtaken || d.origin = .human
  | .touching r _ => !overtaken || d.genKeys = some r.keys
  | .lab (.changed ..) => !overtaken
  | .lab (.read _ _ _ rev) =>
      !overtaken || db.versions.any fun v => v.docId == d.id && v.rev == rev
  | .lab (.versioned _ fingerprint) | .lab (.unchanged _ fingerprint none _) =>
      !overtaken || d.topologyFingerprint = fingerprint
  | .lab (.unchanged _ _ (some _) expectedVersion) => d.currentVersion ≠ expectedVersion
  | _ => true

/-- **The condition on a step.** -/
def inTurn (id : Bytes) (s : SaveState) : SaveEvent → Bool
  | .step i c =>
      match s.ops[i]?, getDoc s.db id with
      | some op, some d => !c.io || op.place.inTurn s.db d op.held.overtaken
      | _, _ => true
  | _ => true

end WiseLabz.Doc
