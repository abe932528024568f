/-
**The version history of docs under interleaved writers.**

Every write of a doc's content produces a revision, and its version row is to be inserted with it.
The writers do both in one transaction, except for the generator of the lab topology doc, whose
steps other writers may come between.  This module follows the docs through any interleaving.

Main definitions:

* `Doc.historyMachine` — **the writers, and the steps of generator calls**;
* `Doc.produced` — the revisions that a step has produced, with the content it has stored;
* `Doc.NotOvertaken` — no write of a doc comes between a call's update of it and its read.

Main results:

* `Doc.writer_effect`, `Doc.labStep_effect` — what each step does to versions and rows;
* `Doc.HistoryInv.step` — **every revision has its row, unless a call still owes it**;
* `Doc.history_complete` — the history of a doc no call is at work on is complete;
* `Doc.history_incomplete` — a run that leaves a gap.
-/

import WiseLabz.Doc.Engine
import WiseLabz.Doc.LabTopology
import WiseLabz.Store.DocTree

set_option relaxedAutoImplicit false
set_option autoImplicit false

namespace WiseLabz.Doc

open Lib Store

/-! ### The machine -/

/-- The current version of an active doc; zero if there is none. -/
def versionOf (db : Db) (id : Bytes) : ℕ := (getDoc db id).elim 0 (·.currentVersion)

/-- A revision of a doc, with the content that the write producing it has stored. -/
structure DocWrite where
  docId : Bytes
  rev : ℕ
  content : Bytes
  deriving DecidableEq, Repr

/-- **The revisions that a step has produced**: those of the docs whose current version is another
one than before. -/
def produced (db db' : Db) : List DocWrite :=
  db'.docs.filterMap fun d =>
    if versionOf db d.id = d.currentVersion then none
    else some ⟨d.id, d.currentVersion, d.content⟩

/-- The tables, the generator calls, and the revisions produced so far. -/
structure HistoryState where
  db : Db
  calls : List LabCall
  log : List DocWrite

/-- What happens: a transaction of a writer, new proposals, or a generator call that starts or takes
its next step. -/
inductive HistoryEvent
  | createGenerated (id connectorId templateId title : Bytes) (r : Render) (trigger : Bytes)
      (now : ℕ)
  | createHuman (d : HumanDoc) (newId : Bytes) (now : ℕ)
  | update (id content : Bytes) (expectedVersion : Option ℕ) (author trigger : Bytes) (now : ℕ)
  | render (id : Bytes) (r : GeneratedRender) (now : ℕ)
  | approve (proposalId reviewerId : Bytes) (now : ℕ)
  | propose (proposals : List DocEditProposal)
  | generate (content fingerprint : Bytes) (skipIfUnchanged : Bool)
  | step (i : ℕ) (newId : Bytes) (now : ℕ)

/-- A failed transaction leaves the tables. -/
def orSame {ε : Type} (db : Db) (x : Except ε Db) : Db :=
  match x with
  | .ok db' => db'
  | .error _ => db

/-- The tables and calls after an event. -/
def HistoryEvent.run (s : HistoryState) : HistoryEvent → Db × List LabCall
  | .createGenerated id connectorId templateId title r trigger now =>
      (orSame s.db (createGeneratedDoc s.db id connectorId templateId title r trigger now), s.calls)
  | .createHuman d newId now => (orSame s.db (createHumanDoc s.db d newId now), s.calls)
  | .update id content expectedVersion author trigger now =>
      (orSame s.db ((updateDocWithVersion s.db id content expectedVersion author trigger now).map
        (·.1)), s.calls)
  | .render id r now => (orSame s.db ((applyGeneratedRender s.db id r now).map (·.1)), s.calls)
  | .approve proposalId reviewerId now =>
      (orSame s.db ((approveDocEditProposal s.db proposalId reviewerId now).map (·.1)), s.calls)
  | .propose proposals => ({ s.db with proposals := proposals }, s.calls)
  | .generate content fingerprint skipIfUnchanged =>
      (s.db, s.calls ++ [.rendered content fingerprint skipIfUnchanged])
  | .step i newId now =>
      match s.calls[i]? with
      | none => (s.db, s.calls)
      | some call =>
          ((labStep s.db call newId now).1, s.calls.set i (labStep s.db call newId now).2)

/-- The state after an event. -/
def historyNext (s : HistoryState) (ev : HistoryEvent) : HistoryState :=
  ⟨(ev.run s).1, (ev.run s).2, s.log ++ produced s.db (ev.run s).1⟩

/-- **The writers, and the steps of generator calls, in any order**, from tables without docs. -/
def historyMachine : Machine HistoryState HistoryEvent :=
  Machine.ofFun (fun s => s.db.docs = [] ∧ s.db.versions = [] ∧ s.calls = [] ∧ s.log = [])
    historyNext

/-- The doc that a call has updated and not yet read again. -/
def LabCall.awaitsRead : LabCall → Option Bytes
  | .updated docId _ _ => some docId
  | _ => none

/-- The doc that a call has written without having inserted the version row. -/
def LabCall.atWorkOn : LabCall → Option Bytes
  | .updated docId _ _ => some docId
  | .read docId _ _ _ => some docId
  | .created docId _ => some docId
  | _ => none

/-- **No write of a doc comes between a call's update of it and its read.** -/
def NotOvertaken (s : HistoryState) (ev : HistoryEvent) : Prop :=
  ∀ call ∈ s.calls, ∀ docId, call.awaitsRead = some docId →
    versionOf (historyNext s ev).db docId = versionOf s.db docId

/-! ### What a step does to the docs -/

/-- Docs have distinct ids and none is deleted. -/
def DocsOk (db : Db) : Prop := UniqueIds db ∧ ∀ d ∈ db.docs, d.deletedAt = none

/-- The versions of the docs are those from before. -/
def SameVersions (db db' : Db) : Prop := DocsOk db' ∧ ∀ a, versionOf db' a = versionOf db a

/-- One doc has its next revision, with the content. -/
def Wrote (db db' : Db) (id content : Bytes) : Prop :=
  DocsOk db' ∧ (∀ a, versionOf db' a = if a = id then versionOf db id + 1 else versionOf db a) ∧
    ∃ d, getDoc db' id = some d ∧ d.content = content

theorem versionOf_of_getDoc {db : Db} {id : Bytes} {d : DocRecord} (hd : getDoc db id = some d) :
    versionOf db id = d.currentVersion := by
  rw [versionOf, hd]
  rfl

theorem DocsOk.getDoc_of_mem {db : Db} (h : DocsOk db) {d : DocRecord} (hd : d ∈ db.docs) :
    getDoc db d.id = some d := h.1.getDoc_of_mem hd (h.2 d hd)

/-- A doc with a version exists. -/
theorem getDoc_of_versionOf_pos {db : Db} {id : Bytes} (h : 1 ≤ versionOf db id) :
    ∃ d, getDoc db id = some d ∧ d.currentVersion = versionOf db id := by
  cases hd : getDoc db id with
  | none =>
      rw [versionOf, hd] at h
      simp at h
  | some d => exact ⟨d, rfl, (versionOf_of_getDoc hd).symm⟩

/-- A step that leaves the versions produces no revision. -/
theorem produced_eq_nil {db db' : Db} (h : SameVersions db db') : produced db db' = [] := by
  rw [produced, List.filterMap_eq_nil_iff]
  intro d hd
  rw [← h.2, versionOf_of_getDoc (h.1.getDoc_of_mem hd), if_pos rfl]

/-- A write produces its revision. -/
theorem mem_produced {db db' : Db} {id content : Bytes} (h : Wrote db db' id content)
    {w : DocWrite} : w ∈ produced db db' ↔ w = ⟨id, versionOf db id + 1, content⟩ := by
  obtain ⟨hok, hversion, d, hd, rfl⟩ := h
  obtain ⟨hm, rfl, -⟩ := getDoc_eq_some hd
  have hrev : d.currentVersion = versionOf db d.id + 1 := by
    rw [← versionOf_of_getDoc hd, hversion, if_pos rfl]
  rw [produced, List.mem_filterMap]
  constructor
  · rintro ⟨e, he, hw⟩
    have hev := hversion e.id
    rw [versionOf_of_getDoc (hok.getDoc_of_mem he)] at hev
    split at hev
    · rename_i hid
      obtain rfl := hok.1.eq_of_id he hm hid
      rw [if_neg (by omega)] at hw
      rw [← Option.some.inj hw, hrev]
    · rw [if_pos hev.symm] at hw
      cases hw
  · rintro rfl
    refine ⟨d, hm, ?_⟩
    rw [if_neg (by omega), hrev]

/-- An update that keeps ids, deletion marks and versions. -/
theorem updateDocs_sameVersions {db : Db} (h : DocsOk db) (p : DocRecord → Bool)
    {f : DocRecord → DocRecord} (hid : ∀ d, (f d).id = d.id)
    (hdel : ∀ d, (f d).deletedAt = d.deletedAt)
    (hver : ∀ d, (f d).currentVersion = d.currentVersion) :
    SameVersions db (updateDocs db p f) := by
  refine ⟨⟨h.1.updateDocs p hid, ?_⟩, ?_⟩
  · intro d' hd'
    obtain ⟨d, hd, rfl⟩ := mem_updateDocs.1 hd'
    split
    · rw [hdel, h.2 d hd]
    · exact h.2 d hd
  · intro a
    rw [versionOf, versionOf, getDoc_updateDocs hid hdel]
    cases getDoc db a with
    | none => rfl
    | some d =>
        show (if p d then f d else d).currentVersion = d.currentVersion
        split
        · exact hver d
        · rfl

/-- A content update writes its doc. -/
theorem updateDocContent_wrote {db db' : Db} (h : DocsOk db) {id content : Bytes}
    {expectedVersion : Option ℕ} {now rev : ℕ}
    (hw : updateDocContent db id content expectedVersion now = .ok (db', rev)) :
    Wrote db db' id content ∧ rev = versionOf db id + 1 ∧ db'.versions = db.versions := by
  obtain ⟨d, hd, hrev, -, hd'⟩ := updateDocContent_getDoc h.1 hw
  have hu' := updateDocContent_unique h.1 hw
  have hversion : ∀ a, versionOf db' a = if a = id then versionOf db id + 1 else versionOf db a := by
    intro a
    split
    · rename_i ha
      rw [ha, versionOf_of_getDoc hd', versionOf_of_getDoc hd]
      rfl
    · rename_i ha
      rw [versionOf, versionOf, updateDocContent_getDoc_of_ne ha hw]
  obtain ⟨-, -, -, rfl⟩ := updateDocContent_eq_ok.1 hw
  refine ⟨⟨⟨hu', ?_⟩, hversion, _, hd', rfl⟩, by rw [hrev, versionOf_of_getDoc hd], rfl⟩
  intro e' he'
  obtain ⟨e, he, rfl⟩ := mem_updateDocs.1 he'
  split
  · exact h.2 e he
  · exact h.2 e he

/-- A new row writes its doc. -/
theorem append_wrote {db : Db} (h : DocsOk db) (db' : Db) {d : DocRecord}
    (hdocs : db'.docs = db.docs ++ [d]) (hfresh : ∀ e ∈ db.docs, e.id ≠ d.id)
    (hdel : d.deletedAt = none) (hver : d.currentVersion = 1) :
    Wrote db db' d.id d.content ∧ versionOf db d.id = 0 := by
  have hget := getDoc_append hdocs hfresh hdel
  have hnone : getDoc db d.id = none := by
    cases hg : getDoc db d.id with
    | none => rfl
    | some e => exact (hfresh e (getDoc_eq_some hg).1 (getDoc_eq_some hg).2.1).elim
  have hzero : versionOf db d.id = 0 := by
    rw [versionOf, hnone]
    rfl
  refine ⟨⟨⟨?_, ?_⟩, ?_, d, by rw [hget, if_pos rfl], rfl⟩, hzero⟩
  · rw [UniqueIds, hdocs, List.map_append, List.nodup_append]
    refine ⟨h.1, List.nodup_singleton _, ?_⟩
    simpa using hfresh
  · intro e he
    rw [hdocs] at he
    rcases List.mem_append.1 he with he | he
    · exact h.2 e he
    · rw [List.mem_singleton.1 he]
      exact hdel
  · intro a
    rw [versionOf, hget]
    split
    · rw [hzero]
      exact hver
    · rfl

/-- A step after a write that keeps all versions, and the doc's content. -/
theorem Wrote.trans {db db₁ db₂ : Db} {id content : Bytes} (h : Wrote db db₁ id content)
    (h' : SameVersions db₁ db₂) (hc : ∃ d, getDoc db₂ id = some d ∧ d.content = content) :
    Wrote db db₂ id content :=
  ⟨h'.1, fun a => (h'.2 a).trans (h.2.1 a), hc⟩

/-! ### What the writers do -/

/-- **What a transaction does**: nothing to the versions, or a revision with its row. -/
inductive Effect (db db' : Db) : Prop
  | quiet (hdocs : SameVersions db db') (hrows : db'.versions = db.versions)
  | recorded (v : DocVersionRecord) (hdocs : Wrote db db' v.docId v.content)
      (hrev : v.rev = versionOf db v.docId + 1) (hrows : db'.versions = db.versions ++ [v])

theorem Effect.refl {db : Db} (h : DocsOk db) : Effect db db := .quiet ⟨h, fun _ => rfl⟩ rfl

/-- A content update and its row. -/
theorem Effect.of_update {db db₁ db₂ : Db} (h : DocsOk db) {id content author trigger : Bytes}
    {expectedVersion : Option ℕ} {now rev : ℕ}
    (hw : updateDocContent db id content expectedVersion now = .ok (db₁, rev))
    (hv : createDocVersion db₁ ⟨id, rev, content, author, trigger⟩ = .ok db₂) : Effect db db₂ := by
  obtain ⟨hwrote, hrev, hrows⟩ := updateDocContent_wrote h hw
  obtain ⟨-, -, rfl⟩ := createDocVersion_eq_ok.1 hv
  refine .recorded ⟨id, rev, content, author, trigger⟩ ?_ hrev ?_
  · exact ⟨hwrote.1, hwrote.2.1, hwrote.2.2⟩
  · rw [← hrows]

/-- A new row and its first version. -/
theorem Effect.of_insert {db : Db} (h : DocsOk db) {d : DocRecord} {author trigger : Bytes}
    (hfresh : ∀ e ∈ db.docs, e.id ≠ d.id) (hdel : d.deletedAt = none) (hver : d.currentVersion = 1) :
    Effect db { db with
      docs := db.docs ++ [d]
      versions := db.versions ++ [⟨d.id, 1, d.content, author, trigger⟩] } := by
  obtain ⟨hwrote, hzero⟩ := append_wrote h { db with
    docs := db.docs ++ [d]
    versions := db.versions ++ [⟨d.id, 1, d.content, author, trigger⟩] } rfl hfresh hdel hver
  exact .recorded ⟨d.id, 1, d.content, author, trigger⟩ hwrote (by rw [hzero]) rfl

/-- The transactions of the writers. -/
theorem orSame_effect {ε : Type} {db : Db} (h : DocsOk db) {x : Except ε Db}
    (hx : ∀ db', x = .ok db' → Effect db db') : Effect db (orSame db x) := by
  cases x with
  | error e => exact .refl h
  | ok db' => exact hx db' rfl

/-- A call that also returns its revision. -/
theorem map_fst_eq_ok {ε : Type} {x : Except ε (Db × ℕ)} {db : Db} (h : x.map (·.1) = .ok db) :
    ∃ rev, x = .ok (db, rev) := by
  cases x with
  | error e => simp [Except.map] at h
  | ok q => exact ⟨q.2, by rw [← Except.ok.inj h]⟩

/-- **What the writers do**: each transaction produces a revision with its row, or none. -/
theorem writer_effect {s : HistoryState} (h : DocsOk s.db) (ev : HistoryEvent)
    (hev : ∀ i newId now, ev ≠ .step i newId now) : Effect s.db (ev.run s).1 := by
  cases ev with
  | createGenerated id connectorId templateId title r trigger now =>
      refine orSame_effect h fun db' hw => ?_
      obtain ⟨db₁, h₁, h₂⟩ := bind_eq_ok.1 hw
      obtain ⟨hfresh, -, rfl⟩ := createDoc_eq_ok.1 h₁
      obtain ⟨-, -, rfl⟩ := createDocVersion_eq_ok.1 h₂
      exact .of_insert h hfresh rfl rfl
  | createHuman d newId now =>
      refine orSame_effect h fun db' hw => ?_
      obtain ⟨-, hinsert⟩ := createHumanDoc_eq_ok.1 hw
      obtain ⟨hfresh, -, rfl⟩ := insertHumanDoc_eq_ok hinsert
      exact .of_insert h hfresh rfl rfl
  | update id content expectedVersion author trigger now =>
      refine orSame_effect h fun db' hw => ?_
      obtain ⟨rev, hw⟩ := map_fst_eq_ok hw
      obtain ⟨db₁, h₁, h₂⟩ := updateDocWithVersion_eq_ok.1 hw
      exact .of_update h h₁ h₂
  | render id r now =>
      refine orSame_effect h fun db' hw => ?_
      obtain ⟨rev, hw⟩ := map_fst_eq_ok hw
      obtain ⟨db₁, db₂, h₁, h₂, rfl⟩ := applyGeneratedRender_eq_ok.1 hw
      -- the provenance is written after the row, and keeps versions and contents
      obtain ⟨hwrote, hrev, hrows⟩ := updateDocContent_wrote h h₁
      obtain ⟨-, -, rfl⟩ := createDocVersion_eq_ok.1 h₂
      have hok : DocsOk { db₁ with versions := db₁.versions ++
          [⟨id, rev, r.content, r.author, r.trigger⟩] } := hwrote.1
      have hsame := updateDocs_sameVersions hok (fun d => d.id == id)
        (f := DocRecord.withRender r now) (fun _ => rfl) (fun _ => rfl) (fun _ => rfl)
      obtain ⟨d, hd, hc⟩ := hwrote.2.2
      refine .recorded ⟨id, rev, r.content, r.author, r.trigger⟩ ?_ hrev ?_
      · refine Wrote.trans ⟨hwrote.1, hwrote.2.1, d, hd, hc⟩ hsame ?_
        rw [getDoc_updateDocs (f := DocRecord.withRender r now) (fun _ => rfl) (fun _ => rfl)]
        refine ⟨if d.id == id then d.withRender r now else d, ?_, ?_⟩
        · have hd' : getDoc { db₁ with versions := db₁.versions ++
            [⟨id, rev, r.content, r.author, r.trigger⟩] } id = some d := hd
          rw [hd']
          rfl
        · split
          · exact hc
          · exact hc
      · rw [updateDocs_versions, hrows]
  | approve proposalId reviewerId now =>
      refine orSame_effect h fun db' hw => ?_
      obtain ⟨rev, hw⟩ := map_fst_eq_ok hw
      obtain ⟨p, proposals, db₁, h₁, h₂⟩ := approveDocEditProposal_eq_ok hw
      have h' : DocsOk { s.db with proposals := proposals } := h
      cases Effect.of_update h' h₁ h₂ with
      | quiet hdocs hrows => exact .quiet hdocs hrows
      | recorded v hdocs hrev hrows => exact .recorded v hdocs hrev hrows
  | propose proposals => exact .quiet ⟨h, fun _ => rfl⟩ rfl
  | generate content fingerprint skipIfUnchanged => exact .refl h
  | step i newId now => exact (hev i newId now rfl).elim

/-! ### What a call does -/

/-- The revision that a call has produced and whose row it still has to insert. -/
def LabCall.owes (db : Db) : LabCall → Option DocWrite
  | .updated docId content _ => some ⟨docId, versionOf db docId, content⟩
  | .read docId content _ rev => some ⟨docId, rev, content⟩
  | .created docId content => some ⟨docId, 1, content⟩
  | _ => none

/-- What a call owes depends on the version of the doc it has not yet read again, at most. -/
theorem owes_congr {db db' : Db} {call : LabCall}
    (h : ∀ docId, call.awaitsRead = some docId → versionOf db' docId = versionOf db docId) :
    call.owes db' = call.owes db := by
  cases call with
  | updated docId content fingerprint => simp [LabCall.owes, h docId rfl]
  | _ => rfl

/-- **What a step of a call does**: nothing to what it owes, or a revision that it owes then, or the
insert of the row that it owed. -/
inductive LabEffect (db : Db) (call : LabCall) (db' : Db) (call' : LabCall) : Prop
  | quiet (hdocs : SameVersions db db') (hrows : db'.versions = db.versions)
      (howes : call'.owes db' = call.owes db)
  | wrote (id content : Bytes) (hdocs : Wrote db db' id content)
      (hrows : db'.versions = db.versions) (hnone : call.owes db = none)
      (howes : call'.owes db' = some ⟨id, versionOf db id + 1, content⟩)
  | settled (v : DocVersionRecord) (hrows : db' = insertVersion db v)
      (howed : call.owes db = some ⟨v.docId, v.rev, v.content⟩) (hnone : call'.owes db' = none)

/-- Recording a fingerprint keeps the versions. -/
theorem setDocTopologyFingerprint_sameVersions {db db' : Db} (h : DocsOk db)
    {id fingerprint : Bytes} {content : Option Bytes} {expectedVersion : ℕ}
    (hw : setDocTopologyFingerprint db id fingerprint content expectedVersion = .ok db') :
    SameVersions db db' ∧ db'.versions = db.versions := by
  unfold setDocTopologyFingerprint at hw
  split at hw
  · obtain rfl := Except.ok.inj hw
    exact ⟨updateDocs_sameVersions h _ (fun _ => rfl) (fun _ => rfl) (fun _ => rfl), rfl⟩
  · split at hw
    · cases hw
    · cases hw

/-- **What a step of a call does.** -/
theorem labStep_effect {db : Db} (h : DocsOk db) (call : LabCall) (newId : Bytes) (now : ℕ)
    (hexists : ∀ docId, call.awaitsRead = some docId → 1 ≤ versionOf db docId) :
    LabEffect db call (labStep db call newId now).1 (labStep db call newId now).2 := by
  have hsame : ∀ call' : LabCall, call'.owes db = call.owes db → LabEffect db call db call' :=
    fun call' howes => .quiet ⟨h, fun _ => rfl⟩ rfl howes
  have hfingerprint : ∀ {id fingerprint content expectedVersion db'}, call.owes db = none →
      setDocTopologyFingerprint db id fingerprint content expectedVersion = .ok db' →
      LabEffect db call db' .returned := by
    intro id fingerprint content expectedVersion db' hnone hw
    obtain ⟨hdocs, hrows⟩ := setDocTopologyFingerprint_sameVersions h hw
    exact .quiet hdocs hrows hnone.symm
  cases call with
  | rendered content fingerprint skipIfUnchanged =>
      unfold labStep
      dsimp only
      split
      · refine hsame _ ?_
        split
        · rfl
        · rfl
      · exact hsame _ rfl
  | found docId content fingerprint =>
      unfold labStep
      dsimp only
      split
      · exact hsame _ rfl
      · rename_i current _
        split
        · generalize (if stripTopologyMarker current.content = current.content then none
            else some (stripTopologyMarker current.content)) = cleaned
          split
          · exact hsame _ rfl
          · exact hsame _ rfl
        · exact hsame _ rfl
  | unchanged docId fingerprint cleaned expectedVersion =>
      unfold labStep
      dsimp only
      split
      · rename_i db' hw
        exact hfingerprint rfl hw
      · exact hsame _ rfl
      · exact hsame _ rfl
  | changed docId content fingerprint =>
      unfold labStep
      dsimp only
      cases hw : updateDocContent db docId content none now with
      | error e => exact hsame _ rfl
      | ok q =>
          obtain ⟨db', rev⟩ := q
          obtain ⟨hwrote, -, hrows⟩ := updateDocContent_wrote h hw
          refine .wrote docId content hwrote hrows rfl ?_
          show some (DocWrite.mk docId (versionOf db' docId) content) = _
          rw [hwrote.2.1, if_pos rfl]
  | updated docId content fingerprint =>
      obtain ⟨d, hd, hversion⟩ := getDoc_of_versionOf_pos (hexists docId rfl)
      unfold labStep
      dsimp only
      rw [hd]
      refine hsame _ ?_
      show some (DocWrite.mk docId d.currentVersion content) = _
      rw [hversion]
      rfl
  | read docId content fingerprint rev =>
      exact .settled (topologyVersion docId content rev) rfl rfl rfl
  | versioned docId fingerprint =>
      unfold labStep
      dsimp only
      cases hw : setDocTopologyFingerprint db docId fingerprint none 0 with
      | error e => exact hsame _ rfl
      | ok db' => exact hfingerprint rfl hw
  | missing content fingerprint =>
      unfold labStep
      dsimp only
      cases hw : createDoc db (topologyRecord newId content fingerprint now) with
      | error e => exact hsame _ rfl
      | ok db' =>
          obtain ⟨hfresh, -, rfl⟩ := createDoc_eq_ok.1 hw
          obtain ⟨hwrote, hzero⟩ := append_wrote h { db with docs := db.docs ++
            [topologyRecord newId content fingerprint now] } rfl hfresh rfl rfl
          refine .wrote newId content hwrote rfl rfl ?_
          show some (DocWrite.mk newId 1 content) = _
          rw [show versionOf db newId = 0 from hzero]
  | created docId content => exact .settled (topologyVersion docId content 1) rfl rfl rfl
  | returned => exact hsame _ rfl
  | failed => exact hsame _ rfl

/-! ### The invariant -/

/-- The revisions produced so far are those up to the current versions, each with one content. -/
structure LogInv (db : Db) (log : List DocWrite) : Prop where
  docs : DocsOk db
  revs : ∀ id r, (∃ c, (⟨id, r, c⟩ : DocWrite) ∈ log) ↔ 1 ≤ r ∧ r ≤ versionOf db id
  content : ∀ id r c c', (⟨id, r, c⟩ : DocWrite) ∈ log → (⟨id, r, c'⟩ : DocWrite) ∈ log → c = c'

/-- The version rows are of produced revisions, with their content, and no two are of the same. -/
structure RowInv (rows : List DocVersionRecord) (log : List DocWrite) : Prop where
  logged : ∀ v ∈ rows, (⟨v.docId, v.rev, v.content⟩ : DocWrite) ∈ log
  keys : (rows.map fun v => (v.docId, v.rev)).Nodup

/-- **The invariant**: every produced revision has its row, unless a call still owes it. -/
structure HistoryInv (s : HistoryState) : Prop where
  log : LogInv s.db s.log
  rows : RowInv s.db.versions s.log
  kept : ∀ w ∈ s.log, (∃ v ∈ s.db.versions, v.docId = w.docId ∧ v.rev = w.rev) ∨
    ∃ call ∈ s.calls, call.owes s.db = some w
  owed : ∀ call ∈ s.calls, ∀ w, call.owes s.db = some w → w ∈ s.log

theorem LogInv.same {db db' : Db} {log : List DocWrite} (h : LogInv db log)
    (hs : SameVersions db db') : LogInv db' log := by
  refine ⟨hs.1, ?_, h.content⟩
  intro id r
  rw [h.revs, hs.2]

/-- A write adds its revision to the log. -/
theorem LogInv.wrote {db db' : Db} {log : List DocWrite} {id content : Bytes} (h : LogInv db log)
    (hw : Wrote db db' id content) : LogInv db' (log ++ produced db db') := by
  have hmem : ∀ w, w ∈ log ++ produced db db' ↔ w ∈ log ∨ w = ⟨id, versionOf db id + 1, content⟩ := by
    intro w
    rw [List.mem_append, mem_produced hw]
  have hnew : ∀ c, (⟨id, versionOf db id + 1, c⟩ : DocWrite) ∉ log := by
    intro c hc
    have := (h.revs id (versionOf db id + 1)).1 ⟨c, hc⟩
    omega
  refine ⟨hw.1, ?_, ?_⟩
  · intro a r
    rw [hw.2.1]
    constructor
    · rintro ⟨c, hc⟩
      rcases (hmem _).1 hc with hc | hc
      · have := (h.revs a r).1 ⟨c, hc⟩
        split
        · rename_i ha
          rw [ha] at this
          omega
        · exact this
      · obtain ⟨rfl, rfl, -⟩ := DocWrite.mk.injEq .. ▸ hc
        rw [if_pos rfl]
        omega
    · rintro ⟨hpos, hle⟩
      split at hle
      · rename_i ha
        rcases Nat.lt_or_eq_of_le hle with hlt | rfl
        · obtain ⟨c, hc⟩ := (h.revs a r).2 ⟨hpos, by rw [ha]; omega⟩
          exact ⟨c, (hmem _).2 (Or.inl hc)⟩
        · exact ⟨content, (hmem _).2 (Or.inr (by rw [ha]))⟩
      · obtain ⟨c, hc⟩ := (h.revs a r).2 ⟨hpos, hle⟩
        exact ⟨c, (hmem _).2 (Or.inl hc)⟩
  · intro a r c c' hc hc'
    rcases (hmem _).1 hc with hc | hc
    · rcases (hmem _).1 hc' with hc' | hc'
      · exact h.content a r c c' hc hc'
      · obtain ⟨rfl, rfl, rfl⟩ := DocWrite.mk.injEq .. ▸ hc'
        exact (hnew c hc).elim
    · obtain ⟨rfl, rfl, rfl⟩ := DocWrite.mk.injEq .. ▸ hc
      rcases (hmem _).1 hc' with hc' | hc'
      · exact (hnew c' hc').elim
      · obtain ⟨-, -, rfl⟩ := DocWrite.mk.injEq .. ▸ hc'
        rfl

theorem RowInv.mono {rows : List DocVersionRecord} {log log' : List DocWrite} (h : RowInv rows log)
    (hsub : log ⊆ log') : RowInv rows log' := ⟨fun v hv => hsub (h.logged v hv), h.keys⟩

/-- A row of a produced revision that has none yet. -/
theorem RowInv.append {rows : List DocVersionRecord} {log : List DocWrite} (h : RowInv rows log)
    {v : DocVersionRecord} (hv : (⟨v.docId, v.rev, v.content⟩ : DocWrite) ∈ log)
    (hfresh : ∀ v' ∈ rows, v'.docId = v.docId → v'.rev ≠ v.rev) : RowInv (rows ++ [v]) log := by
  refine ⟨?_, ?_⟩
  · intro v' hv'
    rcases List.mem_append.1 hv' with hv' | hv'
    · exact h.logged v' hv'
    · rw [List.mem_singleton.1 hv']
      exact hv
  · rw [List.map_append, List.nodup_append]
    refine ⟨h.keys, List.nodup_singleton _, ?_⟩
    intro a ha b hb heq
    obtain ⟨v', hv', rfl⟩ := List.mem_map.1 ha
    obtain rfl := List.mem_singleton.1 hb
    obtain ⟨hid, hrev⟩ := Prod.mk.injEq .. ▸ heq
    exact hfresh v' hv' hid hrev

/-- The row of the next revision has no earlier row with its key. -/
theorem RowInv.next_fresh {db : Db} {log : List DocWrite} (hlog : LogInv db log)
    (h : RowInv db.versions log) {id : Bytes} {r : ℕ} (hr : r = versionOf db id + 1) :
    ∀ v ∈ db.versions, v.docId = id → v.rev ≠ r := by
  rintro v hv rfl rfl
  have := (hlog.revs v.docId v.rev).1 ⟨v.content, h.logged v hv⟩
  omega

/-- **An insert of an owed row leaves a row of its revision**: the insert only fails when there is
one. -/
theorem RowInv.insertVersion {db : Db} {log : List DocWrite} (hlog : LogInv db log)
    (h : RowInv db.versions log) {v : DocVersionRecord}
    (hv : (⟨v.docId, v.rev, v.content⟩ : DocWrite) ∈ log) :
    RowInv (insertVersion db v).versions log ∧
      (∃ v' ∈ (insertVersion db v).versions, v'.docId = v.docId ∧ v'.rev = v.rev) ∧
      (insertVersion db v).docs = db.docs ∧ db.versions ⊆ (insertVersion db v).versions := by
  rw [Doc.insertVersion]
  cases hw : createDocVersion db v with
  | ok db' =>
      obtain ⟨hfresh, -, rfl⟩ := createDocVersion_eq_ok.1 hw
      exact ⟨h.append hv hfresh, ⟨v, by simp, rfl, rfl⟩, rfl, by simp⟩
  | error e =>
      -- the doc exists, so a row with the key must be there already
      obtain ⟨d, hd, -⟩ := getDoc_of_versionOf_pos
        (Nat.le_trans ((hlog.revs v.docId v.rev).1 ⟨v.content, hv⟩).1
          ((hlog.revs v.docId v.rev).1 ⟨v.content, hv⟩).2)
      obtain ⟨hdm, hdid, -⟩ := getDoc_eq_some hd
      refine ⟨h, ?_, rfl, List.Subset.refl _⟩
      by_contra hnone
      have hok : createDocVersion db v = .ok { db with versions := db.versions ++ [v] } := by
        refine createDocVersion_eq_ok.2 ⟨?_, ⟨d, hdm, hdid⟩, rfl⟩
        intro v' hv' hid hrev
        exact hnone ⟨v', hv', hid, hrev⟩
      rw [hok] at hw
      cases hw

/-- The call that took the step, or one that is still there. -/
theorem mem_set_of_mem {α : Type} {xs : List α} {i : ℕ} {x y : α} (x' : α) (hx : xs[i]? = some x)
    (hy : y ∈ xs) : y = x ∨ y ∈ xs.set i x' := by
  obtain ⟨j, hj⟩ := List.mem_iff_getElem?.1 hy
  rcases eq_or_ne j i with rfl | hne
  · exact Or.inl (Option.some.inj (hj.symm.trans hx))
  · refine Or.inr (List.mem_iff_getElem?.2 ⟨j, ?_⟩)
    rw [List.getElem?_set_ne hne.symm, hj]

/-- A transaction keeps the invariant, when it overtakes no call. -/
theorem HistoryInv.writer {s : HistoryState} (h : HistoryInv s) {ev : HistoryEvent}
    (hev : ∀ i newId now, ev ≠ .step i newId now) (hcalls : ∀ call ∈ (ev.run s).2,
      call ∈ s.calls ∨ call.owes (ev.run s).1 = none) (hsub : s.calls ⊆ (ev.run s).2)
    (hovertaken : NotOvertaken s ev) : HistoryInv (historyNext s ev) := by
  have howes : ∀ call ∈ s.calls, call.owes (ev.run s).1 = call.owes s.db :=
    fun call hcall => owes_congr (hovertaken call hcall)
  have hkept : ∀ w ∈ s.log, (∃ v ∈ s.db.versions, v.docId = w.docId ∧ v.rev = w.rev) ∨
      ∃ call ∈ (ev.run s).2, call.owes (ev.run s).1 = some w := by
    intro w hw
    rcases h.kept w hw with hrow | ⟨call, hcall, ho⟩
    · exact Or.inl hrow
    · exact Or.inr ⟨call, hsub hcall, by rw [howes call hcall, ho]⟩
  have howed : ∀ call ∈ (ev.run s).2, ∀ w, call.owes (ev.run s).1 = some w → w ∈ s.log := by
    intro call hcall w ho
    rcases hcalls call hcall with hcall | hnone
    · exact h.owed call hcall w (by rw [← howes call hcall, ho])
    · rw [hnone] at ho
      cases ho
  cases writer_effect h.log.docs ev hev with
  | quiet hdocs hrows =>
      have hlog : (historyNext s ev).log = s.log := by
        rw [historyNext, produced_eq_nil hdocs, List.append_nil]
      refine ⟨?_, ?_, ?_, ?_⟩
      · rw [hlog]
        exact h.log.same hdocs
      · rw [hlog]
        show RowInv (ev.run s).1.versions s.log
        rw [hrows]
        exact h.rows
      · rw [hlog]
        show ∀ w ∈ s.log, (∃ v ∈ (ev.run s).1.versions, _) ∨ _
        rw [hrows]
        exact hkept
      · rw [hlog]
        exact howed
  | recorded v hdocs hrev hrows =>
      have hnew : (⟨v.docId, v.rev, v.content⟩ : DocWrite) ∈ s.log ++ produced s.db (ev.run s).1 := by
        rw [List.mem_append, mem_produced hdocs, hrev]
        exact Or.inr rfl
      refine ⟨h.log.wrote hdocs, ?_, ?_, ?_⟩
      · show RowInv (ev.run s).1.versions _
        rw [hrows]
        exact (h.rows.mono (List.subset_append_left _ _)).append hnew
          (h.rows.next_fresh h.log hrev)
      · intro w hw
        show (∃ v' ∈ (ev.run s).1.versions, _) ∨ _
        rw [hrows]
        rcases List.mem_append.1 hw with hw | hw
        · rcases hkept w hw with ⟨v', hv', hkey⟩ | howing
          · exact Or.inl ⟨v', List.mem_append_left _ hv', hkey⟩
          · exact Or.inr howing
        · rw [mem_produced hdocs] at hw
          exact Or.inl ⟨v, by simp, by rw [hw], by rw [hw, hrev]⟩
      · intro call hcall w ho
        exact List.mem_append_left _ (howed call hcall w ho)

/-- A step of a call keeps the invariant, when it overtakes no other call. -/
theorem HistoryInv.callStep {s : HistoryState} (h : HistoryInv s) {i : ℕ} {newId : Bytes} {now : ℕ}
    {call : LabCall} (hcall : s.calls[i]? = some call)
    (hovertaken : NotOvertaken s (.step i newId now)) :
    HistoryInv (historyNext s (.step i newId now)) := by
  have hmem : call ∈ s.calls := List.mem_iff_getElem?.2 ⟨i, hcall⟩
  have hrun : HistoryEvent.run s (.step i newId now) =
      ((labStep s.db call newId now).1, s.calls.set i (labStep s.db call newId now).2) := by
    simp only [HistoryEvent.run, hcall]
  have hexists : ∀ docId, call.awaitsRead = some docId → 1 ≤ versionOf s.db docId := by
    intro docId ha
    cases call with
    | updated docId' content fingerprint =>
        obtain rfl := Option.some.inj ha
        have hw := h.owed _ hmem _ rfl
        have := (h.log.revs docId' (versionOf s.db docId')).1 ⟨content, hw⟩
        exact this.1
    | _ => cases ha
  have hnext : historyNext s (.step i newId now) =
      ⟨(labStep s.db call newId now).1, s.calls.set i (labStep s.db call newId now).2,
        s.log ++ produced s.db (labStep s.db call newId now).1⟩ := by
    rw [historyNext, hrun]
  have howes : ∀ c ∈ s.calls, c.owes (labStep s.db call newId now).1 = c.owes s.db := by
    intro c hc
    refine owes_congr fun docId ha => ?_
    have := hovertaken c hc docId ha
    rw [hnext] at this
    exact this
  rw [hnext]
  have heffect := labStep_effect h.log.docs call newId now hexists
  generalize (labStep s.db call newId now).1 = db' at heffect howes ⊢
  generalize (labStep s.db call newId now).2 = call' at heffect ⊢
  have hother : ∀ {c}, c ∈ s.calls.set i call' → c = call' ∨ c ∈ s.calls :=
    fun hc => (List.mem_or_eq_of_mem_set hc).symm
  have hself : call' ∈ s.calls.set i call' := by
    obtain ⟨hlt, -⟩ := List.getElem?_eq_some_iff.1 hcall
    exact List.mem_set hlt call'
  cases heffect with
  | quiet hdocs hrows howes' =>
      rw [produced_eq_nil hdocs, List.append_nil]
      refine ⟨h.log.same hdocs, hrows ▸ h.rows, ?_, ?_⟩
      · intro w hw
        rcases h.kept w hw with hrow | ⟨c, hc, ho⟩
        · exact Or.inl (hrows.symm ▸ hrow)
        · refine Or.inr ?_
          rcases mem_set_of_mem call' hcall hc with rfl | hc'
          · exact ⟨call', hself, howes'.trans ho⟩
          · exact ⟨c, hc', (howes c hc).trans ho⟩
      · intro c hc w ho
        rcases hother hc with rfl | hc
        · exact h.owed call hmem w (howes'.symm.trans ho)
        · exact h.owed c hc w ((howes c hc).symm.trans ho)
  | wrote id content hdocs hrows hnone howes' =>
      refine ⟨h.log.wrote hdocs, ?_, ?_, ?_⟩
      · show RowInv db'.versions _
        rw [hrows]
        exact h.rows.mono (List.subset_append_left _ _)
      · intro w hw
        rcases List.mem_append.1 hw with hw | hw
        · rcases h.kept w hw with hrow | ⟨c, hc, ho⟩
          · exact Or.inl (hrows.symm ▸ hrow)
          · refine Or.inr ?_
            rcases mem_set_of_mem call' hcall hc with rfl | hc'
            · rw [hnone] at ho
              cases ho
            · exact ⟨c, hc', (howes c hc).trans ho⟩
        · -- the new revision is owed by the call
          rw [mem_produced hdocs] at hw
          exact Or.inr ⟨call', hself, by rw [hw]; exact howes'⟩
      · intro c hc w ho
        rcases hother hc with rfl | hc
        · rw [howes'] at ho
          refine List.mem_append_right _ ((mem_produced hdocs).2 ?_)
          exact (Option.some.inj ho).symm
        · exact List.mem_append_left _ (h.owed c hc w ((howes c hc).symm.trans ho))
  | settled v hrows howed hnone =>
      have hv := h.owed call hmem _ howed
      obtain ⟨hinv, ⟨v', hv', hkey⟩, hdocs, hsub⟩ := h.rows.insertVersion h.log hv
      rw [← hrows] at hinv hv' hdocs hsub
      have hversion : ∀ a, versionOf db' a = versionOf s.db a := by
        intro a
        rw [versionOf, versionOf, getDoc, getDoc, hdocs]
      have hsame : SameVersions s.db db' := by
        refine ⟨?_, hversion⟩
        rw [DocsOk, UniqueIds, hdocs]
        exact h.log.docs
      rw [produced_eq_nil hsame, List.append_nil]
      refine ⟨h.log.same hsame, hinv, ?_, ?_⟩
      · intro w hw
        rcases h.kept w hw with ⟨v₀, hv₀, hkey₀⟩ | ⟨c, hc, ho⟩
        · exact Or.inl ⟨v₀, hsub hv₀, hkey₀⟩
        · rcases mem_set_of_mem call' hcall hc with rfl | hc'
          · -- the row that the call owed is there now
            rw [howed] at ho
            obtain rfl := Option.some.inj ho
            exact Or.inl ⟨v', hv', hkey⟩
          · exact Or.inr ⟨c, hc', (howes c hc).trans ho⟩
      · intro c hc w ho
        rcases hother hc with rfl | hc
        · rw [hnone] at ho
          cases ho
        · exact h.owed c hc w ((howes c hc).symm.trans ho)

/-- **Steps that overtake no call keep the invariant.** -/
theorem HistoryInv.step {s : HistoryState} (h : HistoryInv s) {ev : HistoryEvent}
    (hovertaken : NotOvertaken s ev) : HistoryInv (historyNext s ev) := by
  have hrefl : ∀ {calls : List LabCall}, calls ⊆ calls := fun {calls} => List.Subset.refl calls
  cases ev with
  | step i newId now =>
      cases hcall : s.calls[i]? with
      | some call => exact h.callStep hcall hovertaken
      | none =>
          have hsame : SameVersions s.db s.db := ⟨h.log.docs, fun _ => rfl⟩
          have hnext : historyNext s (.step i newId now) = s := by
            simp only [historyNext, HistoryEvent.run, hcall, produced_eq_nil hsame, List.append_nil]
          rw [hnext]
          exact h
  | generate content fingerprint skipIfUnchanged =>
      refine h.writer (fun _ _ _ => by simp) ?_ (List.subset_append_left _ _) hovertaken
      intro call hcall
      rcases List.mem_append.1 hcall with hcall | hcall
      · exact Or.inl hcall
      · rw [List.mem_singleton.1 hcall]
        exact Or.inr rfl
  | createGenerated id connectorId templateId title r trigger now =>
      exact h.writer (fun _ _ _ => by simp) (fun _ => Or.inl) hrefl hovertaken
  | createHuman d newId now =>
      exact h.writer (fun _ _ _ => by simp) (fun _ => Or.inl) hrefl hovertaken
  | update id content expectedVersion author trigger now =>
      exact h.writer (fun _ _ _ => by simp) (fun _ => Or.inl) hrefl hovertaken
  | render id r now =>
      exact h.writer (fun _ _ _ => by simp) (fun _ => Or.inl) hrefl hovertaken
  | approve proposalId reviewerId now =>
      exact h.writer (fun _ _ _ => by simp) (fun _ => Or.inl) hrefl hovertaken
  | propose proposals =>
      exact h.writer (fun _ _ _ => by simp) (fun _ => Or.inl) hrefl hovertaken

/-- The invariant of tables without docs. -/
theorem HistoryInv.empty (proposals : List DocEditProposal) (changes : List ChangeRecord) :
    HistoryInv ⟨⟨[], [], proposals, changes⟩, [], []⟩ := by
  refine ⟨⟨⟨List.nodup_nil, ?_⟩, ?_, ?_⟩, ⟨?_, List.nodup_nil⟩, ?_, ?_⟩
  · intro d hd
    simp at hd
  · intro id r
    have hzero : versionOf ⟨[], [], proposals, changes⟩ id = 0 := rfl
    rw [hzero]
    constructor
    · rintro ⟨c, hc⟩
      simp at hc
    · intro h
      omega
  · intro id r c c' hc
    simp at hc
  · intro v hv
    simp at hv
  · intro w hw
    simp at hw
  · intro call hcall
    simp at hcall

/-! ### The history of a doc -/

/-- **The history of a doc is complete**: each revision up to the current version has exactly one
row, with the content that the write producing it has stored, and there are no other rows. -/
def CompleteHistory (s : HistoryState) (d : DocRecord) : Prop :=
  (∀ r, 1 ≤ r → r ≤ d.currentVersion → ∃ v,
    s.db.versions.filter (fun v => v.docId == d.id && v.rev == r) = [v] ∧
    (⟨d.id, r, v.content⟩ : DocWrite) ∈ s.log ∧
    ∀ c, (⟨d.id, r, c⟩ : DocWrite) ∈ s.log → c = v.content) ∧
  ∀ v ∈ s.db.versions, v.docId = d.id → 1 ≤ v.rev ∧ v.rev ≤ d.currentVersion

/-- The one row with a key, under distinct keys. -/
theorem filter_key_eq {rows : List DocVersionRecord}
    (hkeys : (rows.map fun v => (v.docId, v.rev)).Nodup) {v : DocVersionRecord} (hv : v ∈ rows) :
    rows.filter (fun v' => v'.docId == v.docId && v'.rev == v.rev) = [v] := by
  induction rows with
  | nil => simp at hv
  | cons x rows ih =>
      rw [List.map_cons, List.nodup_cons] at hkeys
      rw [List.filter_cons]
      rcases List.mem_cons.1 hv with rfl | hv
      · have hnil : rows.filter (fun v' => v'.docId == v.docId && v'.rev == v.rev) = [] := by
          rw [List.filter_eq_nil_iff]
          intro v' hv' hkey
          simp only [Bool.and_eq_true, beq_iff_eq] at hkey
          exact hkeys.1 (List.mem_map.2 ⟨v', hv', by rw [hkey.1, hkey.2]⟩)
        rw [hnil]
        simp
      · have hx : (x.docId == v.docId && x.rev == v.rev) = false := by
          rw [Bool.and_eq_false_iff, beq_eq_false_iff_ne, beq_eq_false_iff_ne, ← not_and_or]
          rintro ⟨hid, hrev⟩
          exact hkeys.1 (List.mem_map.2 ⟨v, hv, by rw [hid, hrev]⟩)
        rw [hx, ih hkeys.2 hv]
        rfl

/-- A call at work on no doc owes nothing of it. -/
theorem atWorkOn_of_owes {db : Db} {call : LabCall} {w : DocWrite} (h : call.owes db = some w) :
    call.atWorkOn = some w.docId := by
  cases call with
  | updated docId content fingerprint => rw [← Option.some.inj h]; rfl
  | read docId content fingerprint rev => rw [← Option.some.inj h]; rfl
  | created docId content => rw [← Option.some.inj h]; rfl
  | _ => cases h

/-- **The history of a doc that no call is at work on is complete**, after any run in which no write
of a doc comes between a call's update of it and its read. -/
theorem history_complete {s : HistoryState}
    (h : (historyMachine.restrict NotOvertaken).Reachable s) :
    ∀ d ∈ s.db.docs, (∀ call ∈ s.calls, call.atWorkOn ≠ some d.id) → CompleteHistory s d := by
  have hinv : HistoryInv s := by
    refine h.invariant (I := HistoryInv) ?_ ?_
    · rintro ⟨⟨docs, versions, proposals, changes⟩, calls, log⟩ ⟨rfl, rfl, rfl, rfl⟩
      exact HistoryInv.empty proposals changes
    · rintro s ev s' hI ⟨hovertaken, rfl⟩
      exact hI.step hovertaken
  intro d hd hfree
  have hversion := versionOf_of_getDoc (hinv.log.docs.getDoc_of_mem hd)
  refine ⟨?_, ?_⟩
  · intro r hpos hle
    obtain ⟨c, hc⟩ := (hinv.log.revs d.id r).2 ⟨hpos, by rw [hversion]; exact hle⟩
    rcases hinv.kept _ hc with ⟨v, hv, hid, hrev⟩ | ⟨call, hcall, ho⟩
    · have hlogged := hinv.rows.logged v hv
      rw [hid, hrev] at hlogged
      have hkey := filter_key_eq hinv.rows.keys hv
      rw [hid, hrev] at hkey
      exact ⟨v, hkey, hlogged, fun c' hc' => hinv.log.content _ _ _ _ hc' hlogged⟩
    · exact (hfree call hcall (atWorkOn_of_owes ho)).elim
  · intro v hv hid
    have := (hinv.log.revs v.docId v.rev).1 ⟨v.content, hinv.rows.logged v hv⟩
    rwa [hid, hversion] at this

/-! ### A save between an update and its read -/

/-- No docs. -/
def emptyState : HistoryState := ⟨⟨[], [], [], []⟩, [], []⟩

/-- A first call, which creates the lab topology doc. -/
def firstCall : List HistoryEvent :=
  [.generate (bytes "v1") (bytes "f1") false, .step 0 [] 0, .step 0 (bytes "t") 0,
    .step 0 [] 0]

/-- A second call, which a save overtakes between its update and its read. -/
def overtakenCall : List HistoryEvent :=
  [.generate (bytes "v2") (bytes "f2") false, .step 1 [] 1, .step 1 [] 1,
    .update (bytes "t") (bytes "v3") none (bytes "u") (bytes "manual") 1,
    .step 1 [] 1, .step 1 [] 1, .step 1 [] 1]

/-- The state after the first call. -/
def firstCallState : HistoryState := firstCall.foldl historyNext emptyState

/-- The first call alone leaves a complete history. -/
theorem history_complete_sample :
    CompleteHistory firstCallState (topologyRecord (bytes "t") (bytes "v1") (bytes "f1") 0) := by
  have hinit : (historyMachine.restrict NotOvertaken).init emptyState := ⟨rfl, rfl, rfl, rfl⟩
  have hstep : ∀ s ev, (∀ call ∈ s.calls, call.awaitsRead = none) →
      (historyMachine.restrict NotOvertaken).step s ev (historyNext s ev) := by
    intro s ev hfree
    refine ⟨fun call hcall docId ha => ?_, rfl⟩
    rw [hfree call hcall] at ha
    cases ha
  have h₁ := (Machine.Reachable.of_init hinit).step (hstep emptyState
    (.generate (bytes "v1") (bytes "f1") false) (by decide))
  have h₂ := h₁.step (hstep _ (.step 0 [] 0) (by decide))
  have h₃ := h₂.step (hstep _ (.step 0 (bytes "t") 0) (by decide))
  have h₄ := h₃.step (hstep _ (.step 0 [] 0) (by decide))
  have hidle : ∀ call ∈ firstCallState.calls, call.atWorkOn = none := by decide
  refine history_complete h₄ _ (List.mem_singleton.2 rfl) fun call hcall hwork => ?_
  rw [hidle call hcall] at hwork
  cases hwork

/-- **A save that overtakes a generator call leaves a gap**: the call reads the revision of the save
and the row of its own revision is never inserted. -/
theorem history_incomplete :
    ¬ ∀ s, historyMachine.Reachable s → ∀ d ∈ s.db.docs,
      (∀ call ∈ s.calls, call.atWorkOn ≠ some d.id) → CompleteHistory s d := by
  intro h
  have hreach : historyMachine.Reachable ((firstCall ++ overtakenCall).foldl historyNext emptyState) :=
    Machine.reachable_ofFun ⟨rfl, rfl, rfl, rfl⟩ _
  have hdoc : ∃ d ∈ ((firstCall ++ overtakenCall).foldl historyNext emptyState).db.docs,
      d.id = bytes "t" ∧ d.currentVersion = 3 := by decide
  obtain ⟨d, hd, hid, hversion⟩ := hdoc
  have hidle : ∀ call ∈ ((firstCall ++ overtakenCall).foldl historyNext emptyState).calls,
      call.atWorkOn = none := by decide
  have hcomplete := h _ hreach d hd fun call hcall hwork => by
    rw [hidle call hcall] at hwork
    cases hwork
  obtain ⟨v, hv, -⟩ := hcomplete.1 2 (by omega) (by omega)
  have hnone : ((firstCall ++ overtakenCall).foldl historyNext emptyState).db.versions.filter
      (fun v => v.docId == bytes "t" && v.rev == 2) = [] := by decide
  rw [hid, hnone] at hv
  cases hv

end WiseLabz.Doc
