/-
**Generating the lab topology doc, one store call at a time.**

The lab topology doc is written outside any transaction: a call looks the doc up, updates it, reads
it again, inserts the version row and records the fingerprint of what it has drawn, and other
writers may come between.  A call is therefore a program counter with what the call remembers, and
a step of it is one store call.

Main definitions:

* `Doc.stripTopologyMarker`, `Doc.stripMarkers` — what is left of a content without its markers;
* `Doc.LabCall` — **where a call is**;
* `Doc.labStep` — **its next store call**.
-/

import WiseLabz.Store.Docs
import WiseLabz.Doc.Blocks

set_option relaxedAutoImplicit false
set_option autoImplicit false

namespace WiseLabz.Doc

open Lib Store

/-! ### Markers -/

/-- The start of the edge fingerprint comment that earlier versions embedded in the doc. -/
def topologyDocMarker : Bytes := bytes "<!-- wl:topology-edges:"

/-- What follows the last `-->` of a line. -/
def afterLastArrow : Bytes → Option Bytes
  | [] => none
  | b :: line =>
      match afterLastArrow line with
      | some rest => some rest
      | none => stripPrefix (bytes "-->") (b :: line)

/-- What follows `topologyMarkerLine` in `s`, if `s` starts with a match: an optional newline, the
comment up to the last arrow of its line, blanks, and an optional newline. -/
def afterTopologyMarker (s : Bytes) : Option Bytes := do
  let rest ← stripPrefix topologyDocMarker ((stripPrefix [newline] s).getD s)
  let tail ← afterLastArrow (rest.takeWhile (· != newline))
  let blanks := tail.dropWhile fun b => b == 32 || b == 9
  let after := rest.dropWhile (· != newline)
  if blanks = [] then some ((stripPrefix [newline] after).getD after) else some (blanks ++ after)

/-- The leftmost matches removed, one after the other; a match is not empty, so the length of the
content is fuel enough. -/
def stripTopologyFrom : ℕ → Bytes → Bytes
  | 0, s => s
  | _ + 1, [] => []
  | fuel + 1, b :: s =>
      match afterTopologyMarker (b :: s) with
      | some rest => stripTopologyFrom fuel rest
      | none => b :: stripTopologyFrom fuel s

/-- `StripTopologyMarker` -/
def stripTopologyMarker (content : Bytes) : Bytes := stripTopologyFrom content.length content

/-- `StripMarkers`: what a reader sees. -/
def stripMarkers (content : Bytes) : Bytes :=
  (parseBlocks (stripTopologyMarker content)).flatMap fun
    | .text t => t
    | .block b => b.body

/-! ### One call -/

/-- The title of the lab topology doc. -/
def labTopologyTitle : Bytes := bytes "Lab Topology"

/-- **Where a call of `generateLabTopology` is**, with what it remembers: the rendered content and
fingerprint, and the doc it writes. -/
inductive LabCall
  /-- Before `ListAllDocs`. -/
  | rendered (content fingerprint : Bytes) (skipIfUnchanged : Bool)
  /-- The doc exists; before `GetDoc` of the comparison. -/
  | found (docId content fingerprint : Bytes)
  /-- The drawing has not changed; before `SetDocTopologyFingerprint`. -/
  | unchanged (docId fingerprint : Bytes) (cleaned : Option Bytes) (expectedVersion : ℕ)
  /-- Before `UpdateDoc`. -/
  | changed (docId content fingerprint : Bytes)
  /-- After `UpdateDoc`, before `GetDoc`. -/
  | updated (docId content fingerprint : Bytes)
  /-- Before `CreateDocVersion` with the revision that `GetDoc` has returned. -/
  | read (docId content fingerprint : Bytes) (rev : ℕ)
  /-- Before `SetDocTopologyFingerprint`. -/
  | versioned (docId fingerprint : Bytes)
  /-- There is no such doc; before `CreateDoc`. -/
  | missing (content fingerprint : Bytes)
  /-- After `CreateDoc`, before `CreateDocVersion`. -/
  | created (docId content : Bytes)
  /-- The call has returned. -/
  | returned
  /-- The call has returned an error. -/
  | failed

/-- A human lab note may share the title; only the generated doc is the generator's. -/
def isTopologyDoc (d : DocRecord) : Bool :=
  d.kind == .lab && d.title == labTopologyTitle && d.origin != .human

/-- The row of a new topology doc. -/
def topologyRecord (id content fingerprint : Bytes) (now : ℕ) : DocRecord where
  id := id
  title := labTopologyTitle
  kind := .lab
  serviceId := []
  content := content
  currentVersion := 1
  updatedAt := now
  origin := .generated
  templateId := []
  lastSyncedAt := none
  genKeys := none
  parentId := []
  deletedAt := none
  createdBy := []
  topologyFingerprint := fingerprint

/-- The version row that a call inserts. -/
def topologyVersion (docId content : Bytes) (rev : ℕ) : DocVersionRecord :=
  ⟨docId, rev, content, [], bytes "manual"⟩

/-- A write of the tables that may fail, and where the call is afterwards. -/
def thenCall (db : Db) (write : Except StoreError Db) (call : LabCall) : Db × LabCall :=
  match write with
  | .ok db' => (db', call)
  | .error _ => (db, .failed)

/-- The insert of a version row, whose error is ignored. -/
def insertVersion (db : Db) (v : DocVersionRecord) : Db :=
  match createDocVersion db v with
  | .ok db' => db'
  | .error _ => db

/-- **The next store call** of a call: the tables after it and where the call is then. -/
def labStep (db : Db) (call : LabCall) (newId : Bytes) (now : ℕ) : Db × LabCall :=
  match call with
  | .rendered content fingerprint skipIfUnchanged =>
      match (listAllDocs db labTopologyTitle 0 50).find? isTopologyDoc with
      | some d =>
          (db, if skipIfUnchanged then .found d.id content fingerprint
            else .changed d.id content fingerprint)
      | none => (db, .missing content fingerprint)
  | .found docId content fingerprint =>
      match getDoc db docId with
      | none => (db, .failed)
      | some current =>
          if stripMarkers current.content = stripMarkers content then
            let clean := stripTopologyMarker current.content
            let cleaned := if clean = current.content then none else some clean
            if cleaned.isSome ∨ current.topologyFingerprint ≠ fingerprint then
              (db, .unchanged docId fingerprint cleaned current.currentVersion)
            else (db, .returned)
          else (db, .changed docId content fingerprint)
  | .unchanged docId fingerprint cleaned expectedVersion =>
      match setDocTopologyFingerprint db docId fingerprint cleaned expectedVersion with
      | .ok db' => (db', .returned)
      | .error .versionConflict => (db, .returned)
      | .error _ => (db, .failed)
  | .changed docId content fingerprint =>
      thenCall db ((updateDocContent db docId content none now).map (·.1))
        (.updated docId content fingerprint)
  | .updated docId content fingerprint =>
      match getDoc db docId with
      | none => (db, .failed)
      | some updated => (db, .read docId content fingerprint updated.currentVersion)
  | .read docId content fingerprint rev =>
      (insertVersion db (topologyVersion docId content rev), .versioned docId fingerprint)
  | .versioned docId fingerprint =>
      thenCall db (setDocTopologyFingerprint db docId fingerprint none 0) .returned
  | .missing content fingerprint =>
      thenCall db (createDoc db (topologyRecord newId content fingerprint now))
        (.created newId content)
  | .created docId content => (insertVersion db (topologyVersion docId content 1), .returned)
  | .returned => (db, .returned)
  | .failed => (db, .failed)

end WiseLabz.Doc
