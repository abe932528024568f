/-
**Every revision of a doc is exported once.**

The export state is rewritten, at the end of a run, with the revisions that the docs had when they
were read first.  If these are still the current ones when the revisions are read, no revision is
between the two, and what is in the remote history of a doc is exactly its revisions from its first
export to its cursor.  A run that stops at its cap does not rewrite the state; there it is enough
that the docs of the revisions were read.

Main definitions:

* `DocExport.orderly` — what was read of the docs still holds when the revisions are read;
* `DocExport.Exported` — **what the history has of a doc**, in terms of its cursor;
* `DocExport.Loop` — the same within a run, with the revisions that are to come.

Main results:

* `DocExport.versionsAfter_increasing` — the revisions of a doc come in order;
* `DocExport.Grows.inv`, `DocExport.Loop.commitRevision`, `DocExport.Loop.exportPage` — what the
  store and a run keep;
* `DocExport.revisions_once` — **every revision is committed once, in order, with its content**.
-/

import WiseLabz.DocExport.Git

set_option relaxedAutoImplicit false
set_option autoImplicit false

namespace WiseLabz.DocExport

open Lib

/-! ### What a history has of a doc -/

/-- The revisions of a doc that were committed, in order. -/
def revsOf (history : List Commit) (id : Bytes) : List ℕ :=
  history.filterMap fun c => c.revision.bind fun r => if r.1 = id then some r.2 else none

/-- The cursors of the last commit. -/
def headCursors (history : List Commit) : List Cursor := (headTree history).cursors

/-- The revision of a doc that its first export had. -/
def firstRev (history : List Commit) (id : Bytes) : ℕ :=
  cursorRev ((history.head?.map fun c => c.tree.cursors).getD []) id

/-- The current revision of a doc. -/
def currentOf (s : State) (id : Bytes) : ℕ :=
  ((lookup DocRow.id s.docs id).map DocRow.currentVersion).getD 0

/-- The revision that a doc had when the docs were read. -/
def readRev (docs : List DocRow) (id : Bytes) : ℕ :=
  ((current docs id).map DocRow.currentVersion).getD 0

/-- When the revisions are read, the docs as they were read have all docs of the revisions, and if the
run is to come to its end, all active docs with their current revisions. -/
def orderly (env : Env) (s : State) : Event → Bool
  | .readVersions =>
      match s.run with
      | .versions docs =>
          let rest := listDocVersionsAfter s (headCursors s.remote) env.maxRevisionsPerRun
          (rest.all fun v => (current docs v.docID).isSome) &&
            (rest.length = env.maxRevisionsPerRun || (activeDocs s).all fun d =>
              (current docs d.id).map DocRow.currentVersion = some d.currentVersion)
      | _ => true
  | _ => true

/-- A commit has a content of a doc in the file of the doc, and names the file in its cursor. -/
def HasRevision (env : Env) (c : Commit) (v : Version) : Prop :=
  ∃ title, lookup Cursor.docID c.tree.cursors v.docID =
      some ⟨v.docID, v.rev, fileName env title v.docID⟩ ∧
    lookup File.name c.tree.files (fileName env title v.docID) =
      some ⟨fileName env title v.docID, env.exportContent v.docID v.content⟩

/-- **What the history has of a doc**: all retained revisions from its first export to its cursor,
each once. -/
structure Exported (env : Env) (s : State) (history : List Commit) (id : Bytes) : Prop where
  increasing : (revsOf history id).Pairwise (· < ·)
  first : firstRev history id ≤ cursorRev (headCursors history) id
  range : ∀ r ∈ revsOf history id,
    firstRev history id < r ∧ r ≤ cursorRev (headCursors history) id
  committed : ∀ v ∈ s.versions, v.docID = id → firstRev history id < v.rev →
    v.rev ≤ cursorRev (headCursors history) id → v.rev ∈ revsOf history id
  content : ∀ c ∈ history, ∀ v ∈ s.versions, v.docID = id → c.revision = some (id, v.rev) →
    HasRevision env c v
  current : cursorRev (headCursors history) id ≤ currentOf s id

/-! ### Invariants -/

/-- What holds of the rows of the store. -/
structure StoreOk (s : State) : Prop where
  ids : KeyNodup DocRow.id s.docs
  uuid : ∀ d ∈ s.docs, isUuid d.id = true
  rows : ∀ v ∈ s.versions, 0 < v.rev ∧ v.rev ≤ currentOf s v.docID
  keys : KeyNodup (fun v : Version => (v.docID, v.rev)) s.versions
  times : ∀ v ∈ s.versions, ∀ w ∈ s.versions, v.docID = w.docID → v.rev < w.rev →
    v.createdAt ≤ w.createdAt
  deleted : ∀ d ∈ s.docs, d.deleted = true → d.id ∈ s.everDeleted

/-- The file of a cursor is one that a later run may delete. -/
def FilesOk (cursors : List Cursor) : Prop :=
  ∀ c ∈ cursors, isGeneratedName c.file = true ∧ 47 ∉ c.file

/-- Docs that were read. -/
def ReadOk (s : State) (docs : List DocRow) : Prop :=
  ∀ d ∈ docs, isUuid d.id = true ∧ d.currentVersion ≤ currentOf s d.id

/-- The remote history, or the commits of a run after it. -/
structure HistoryOk (env : Env) (s : State) (history : List Commit) : Prop where
  state : history ≠ [] → (headTree history).state ≠ none
  files : FilesOk (headCursors history)
  exported : ∀ id, id ∉ s.everDeleted → Exported env s history id

/-- The revisions that are yet to be committed. -/
structure RestOk (s : State) (docs : List DocRow) (cursors : List Cursor) (rest : List Version) :
    Prop where
  read : ∀ v ∈ rest, (current docs v.docID).isSome = true ∧ v.rev ≤ currentOf s v.docID
  later : ∀ v ∈ rest, cursorRev cursors v.docID < v.rev
  increasing : rest.Pairwise fun v w => v.docID = w.docID → v.rev < w.rev
  row : ∀ v ∈ rest, ∀ w ∈ s.versions, w.docID = v.docID → w.rev = v.rev → w = v
  before : ∀ v ∈ rest, ∀ w ∈ s.versions, w.docID = v.docID → cursorRev cursors w.docID < w.rev →
    w.rev ≤ v.rev → w ∈ rest

/-- **A run that has read the revisions.** -/
structure Loop (env : Env) (s : State) (docs : List DocRow) (capped : Bool) (rest : List Version)
    (commits : List Commit) (tree : Tree) : Prop where
  read : ReadOk s docs
  history : HistoryOk env s (s.remote ++ commits)
  head : tree = headTree (s.remote ++ commits)
  snapshot : capped = false →
    ∀ id, id ∉ s.everDeleted → cursorRev tree.cursors id ≤ readRev docs id
  pending : RestOk s docs tree.cursors rest
  within : capped = false → ∀ v ∈ rest, v.rev ≤ readRev docs v.docID
  complete : capped = false → s.remote ++ commits ≠ [] → ∀ v ∈ s.versions,
    v.docID ∉ s.everDeleted → cursorRev tree.cursors v.docID < v.rev →
    v.rev ≤ readRev docs v.docID → v ∈ rest
  count : capped = true → commits.length + rest.length = env.maxRevisionsPerRun
  made : ∀ c ∈ commits, c.revision.isSome = true

/-- What a run has reached when it is pushed. -/
def Reached (env : Env) (s : State) (docs : List DocRow) (capped : Bool) (commits : List Commit) :
    Prop :=
  (capped = true → commits.length = env.maxRevisionsPerRun ∧
    ∀ c ∈ commits, c.revision.isSome = true) ∧
    (capped = false → ∀ id, id ∉ s.everDeleted →
      cursorRev (headCursors (s.remote ++ commits)) id = readRev docs id)

def RunOk (env : Env) (s : State) : RunPc → Prop
  | .idle => True
  | .fetch _ docs => ReadOk s docs
  | .versions docs => ReadOk s docs ∧ s.remote ≠ []
  | .revisions docs capped rest commits tree =>
      Loop env s docs capped rest commits tree ∧ s.remote ≠ []
  | .exportAll docs commits tree _ _ => Loop env s docs false [] commits tree
  | .push docs capped commits =>
      HistoryOk env s (s.remote ++ commits) ∧ Reached env s docs capped commits ∧
        s.remote ++ commits ≠ []
  | .badName => False

structure Inv (env : Env) (s : State) : Prop where
  store : StoreOk s
  remote : HistoryOk env s s.remote
  run : RunOk env s s.run

/-! ### Histories -/

@[simp] theorem headCursors_append_singleton (history : List Commit) (c : Commit) :
    headCursors (history ++ [c]) = c.tree.cursors := by
  simp [headCursors, headTree]

theorem revsOf_append (history history' : List Commit) (id : Bytes) :
    revsOf (history ++ history') id = revsOf history id ++ revsOf history' id :=
  List.filterMap_append

theorem mem_revsOf {history : List Commit} {id : Bytes} {c : Commit} {r : ℕ} (hc : c ∈ history)
    (hr : c.revision = some (id, r)) : r ∈ revsOf history id := by
  refine List.mem_filterMap.2 ⟨c, hc, ?_⟩
  rw [hr, Option.bind_some, if_pos rfl]

theorem firstRev_append {history : List Commit} (h : history ≠ []) (history' : List Commit)
    (id : Bytes) : firstRev (history ++ history') id = firstRev history id := by
  cases history with
  | nil => exact absurd rfl h
  | cons c history => rfl

theorem same_state {t t' : Tree} (h : t.same t' = true) : t.state.isSome = t'.state.isSome := by
  rw [Tree.same, Bool.and_eq_true] at h
  revert h
  cases t.state <;> cases t'.state <;> intro h
  · rfl
  · exact absurd h.1 (by simp)
  · exact absurd h.1 (by simp)
  · rfl

theorem same_cursorRev {t t' : Tree} (h : t.same t' = true) (id : Bytes) :
    cursorRev t.cursors id = cursorRev t'.cursors id := by
  have hrows : ∀ cursors cursors' : List Cursor,
      sameRows Cursor.docID cursors cursors' = true →
        lookup Cursor.docID cursors id = lookup Cursor.docID cursors' id := by
    intro cursors cursors' hsame
    simp only [sameRows, Bool.and_eq_true, List.all_eq_true, decide_eq_true_eq] at hsame
    cases hc : lookup Cursor.docID cursors id with
    | some c =>
        obtain ⟨hmem, rfl⟩ := lookup_eq_some hc
        exact (hsame.1 c hmem).symm
    | none =>
        cases hc' : lookup Cursor.docID cursors' id with
        | none => rfl
        | some c =>
            obtain ⟨hmem, rfl⟩ := lookup_eq_some hc'
            rw [← hc, hsame.2 c hmem]
  rw [Tree.same, Bool.and_eq_true] at h
  unfold cursorRev Tree.cursors
  revert h
  cases t.state <;> cases t'.state <;> intro h
  · rfl
  · exact absurd h.1 (by simp)
  · exact absurd h.1 (by simp)
  · rw [Option.getD_some, Option.getD_some, hrows _ _ h.1]

/-- Nothing is committed only where the cursors stay. -/
theorem commitWith_cases (history : List Commit) (tree : Tree) (revision : Option (Bytes × ℕ)) :
    commitWith history tree revision = [⟨tree, revision⟩] ∨
      commitWith history tree revision = [] ∧
        (headTree history).state.isSome = tree.state.isSome ∧
        ∀ id, cursorRev (headCursors history) id = cursorRev tree.cursors id := by
  unfold commitWith
  split
  · next h => exact Or.inr ⟨rfl, same_state h, same_cursorRev h⟩
  · exact Or.inl rfl

/-! ### What the store does meanwhile -/

/-- Rows are added only for revisions to come. -/
structure Grows (s t : State) : Prop where
  deleted : ∀ id ∈ s.everDeleted, id ∈ t.everDeleted
  current : ∀ id, currentOf s id ≤ currentOf t id
  versions : ∀ v ∈ t.versions, v ∈ s.versions ∨ currentOf s v.docID < v.rev

section Grows

variable {env : Env} {s t : State} (h : Grows s t)

include h

theorem Grows.old {v : Version} (hv : v ∈ t.versions) (hrev : v.rev ≤ currentOf s v.docID) :
    v ∈ s.versions :=
  (h.versions v hv).resolve_right (by omega)

theorem Grows.exported {history : List Commit} {id : Bytes} (hex : Exported env s history id) :
    Exported env t history id where
  increasing := hex.increasing
  first := hex.first
  range := hex.range
  committed := by
    intro v hv hid hfirst hcursor
    subst hid
    exact hex.committed v (h.old hv (hcursor.trans hex.current)) rfl hfirst hcursor
  content := by
    intro c hc v hv hid hrev
    subst hid
    have hcursor := (hex.range v.rev (mem_revsOf hc hrev)).2
    exact hex.content c hc v (h.old hv (hcursor.trans hex.current)) rfl hrev
  current := hex.current.trans (h.current id)

theorem Grows.history {history : List Commit} (hhist : HistoryOk env s history) :
    HistoryOk env t history where
  state := hhist.state
  files := hhist.files
  exported := fun id hid => h.exported (hhist.exported id fun hmem => hid (h.deleted id hmem))

theorem Grows.read {docs : List DocRow} (hread : ReadOk s docs) : ReadOk t docs :=
  fun d hd => ⟨(hread d hd).1, (hread d hd).2.trans (h.current d.id)⟩

end Grows

theorem readRev_le {s : State} {docs : List DocRow} (hread : ReadOk s docs) (id : Bytes) :
    readRev docs id ≤ currentOf s id := by
  unfold readRev
  cases hd : current docs id with
  | none => exact Nat.zero_le _
  | some d =>
      obtain ⟨hmem, rfl⟩ := lookup_eq_some hd
      exact (hread d (List.mem_reverse.1 hmem)).2

theorem Grows.loop {env : Env} {s t : State} (h : Grows s t) (hremote : t.remote = s.remote)
    {docs : List DocRow} {capped : Bool} {rest : List Version} {commits : List Commit} {tree : Tree}
    (hloop : Loop env s docs capped rest commits tree) :
    Loop env t docs capped rest commits tree where
  read := h.read hloop.read
  history := hremote ▸ h.history hloop.history
  head := hremote ▸ hloop.head
  snapshot := fun hcapped id hid => hloop.snapshot hcapped id fun hmem => hid (h.deleted id hmem)
  within := hloop.within
  pending :=
    { read := fun v hv =>
        ⟨(hloop.pending.read v hv).1, (hloop.pending.read v hv).2.trans (h.current v.docID)⟩
      later := hloop.pending.later
      increasing := hloop.pending.increasing
      row := by
        intro v hv w hw hid hrev
        refine hloop.pending.row v hv w (h.old hw ?_) hid hrev
        rw [hid, hrev]
        exact (hloop.pending.read v hv).2
      before := by
        intro v hv w hw hid hcursor hrev
        refine hloop.pending.before v hv w (h.old hw ?_) hid hcursor hrev
        rw [hid]
        exact hrev.trans (hloop.pending.read v hv).2 }
  complete := by
    intro hcapped hne v hv hid hcursor hrev
    exact hloop.complete hcapped (hremote ▸ hne) v
      (h.old hv (hrev.trans (readRev_le hloop.read v.docID)))
      (fun hmem => hid (h.deleted _ hmem)) hcursor hrev
  count := hloop.count
  made := hloop.made

/-- **What the store does keeps what is known of a run.** -/
theorem Grows.runOk {env : Env} {s t : State} (h : Grows s t) (hremote : t.remote = s.remote) :
    ∀ {pc : RunPc}, RunOk env s pc → RunOk env t pc
  | .idle, hok => hok
  | .fetch _ _, hok => h.read hok
  | .versions _, hok => ⟨h.read hok.1, hremote ▸ hok.2⟩
  | .revisions _ _ _ _ _, hok => ⟨h.loop hremote hok.1, hremote ▸ hok.2⟩
  | .exportAll _ _ _ _ _, hok => h.loop hremote hok
  | .push docs capped commits, ⟨hhist, hreached, hne⟩ => by
      refine ⟨hremote ▸ h.history hhist, ⟨hreached.1, fun hcapped id hid => ?_⟩, hremote ▸ hne⟩
      rw [hremote]
      exact hreached.2 hcapped id fun hmem => hid (h.deleted id hmem)
  | .badName, hok => hok

theorem Grows.inv {env : Env} {s t : State} (h : Grows s t) (hremote : t.remote = s.remote)
    (hrun : t.run = s.run) (hstore : StoreOk t) (hinv : Inv env s) : Inv env t :=
  ⟨hstore, hremote ▸ h.history hinv.remote, h.runOk hremote (hrun ▸ hinv.run)⟩

/-- A step of a run leaves the store as it is. -/
theorem grows_run (s : State) (remote : List Commit) (pc : RunPc) :
    Grows s { s with remote := remote, run := pc } :=
  ⟨fun _ h => h, fun _ => le_refl _, fun _ h => Or.inl h⟩

/-! ### The steps of the store -/

/-- Titles and the trash may change. -/
theorem StoreOk.map {s : State} (h : StoreOk s) (f : DocRow → DocRow) (everDeleted : List Bytes)
    (hid : ∀ d, (f d).id = d.id) (hrev : ∀ d, (f d).currentVersion = d.currentVersion)
    (hever : ∀ id ∈ s.everDeleted, id ∈ everDeleted)
    (hdeleted : ∀ d ∈ s.docs, (f d).deleted = true → d.id ∈ everDeleted) :
    StoreOk { s with docs := s.docs.map f, everDeleted := everDeleted } ∧
      Grows s { s with docs := s.docs.map f, everDeleted := everDeleted } := by
  have hcurrent : ∀ id,
      currentOf { s with docs := s.docs.map f, everDeleted := everDeleted } id = currentOf s id := by
    intro id
    rw [currentOf, lookup_map hid, Option.map_map]
    have hcomp : DocRow.currentVersion ∘ f = DocRow.currentVersion := funext hrev
    rw [hcomp, currentOf]
  refine ⟨⟨h.ids.map hid, ?_, ?_, h.keys, h.times, ?_⟩,
    ⟨hever, fun id => (hcurrent id).ge, fun v hv => Or.inl hv⟩⟩
  · intro d hd
    obtain ⟨d', hd', rfl⟩ := List.mem_map.1 hd
    rw [hid]
    exact h.uuid d' hd'
  · intro v hv
    rw [hcurrent]
    exact h.rows v hv
  · intro d hd hdel
    obtain ⟨d', hd', rfl⟩ := List.mem_map.1 hd
    rw [hid]
    exact hdeleted d' hd' hdel

theorem currentOf_of_mem {s : State} (h : StoreOk s) {d : DocRow} (hd : d ∈ s.docs) :
    currentOf s d.id = d.currentVersion := by
  rw [currentOf, h.ids.lookup_of_mem hd, Option.map_some, Option.getD_some]

/-- A doc and its first revision are added. -/
theorem createDoc_ok {s : State} (h : StoreOk s) {id : Bytes} (title content : Bytes) (now : ℕ)
    (huuid : isUuid id = true) (hnew : ∀ d ∈ s.docs, d.id ≠ id) :
    StoreOk (createDoc s id title content now) ∧ Grows s (createDoc s id title content now) := by
  have hnone : lookup DocRow.id s.docs id = none := lookup_eq_none.2 hnew
  have hzero : currentOf s id = 0 := by
    rw [currentOf, hnone]
    rfl
  have hcurrent : ∀ i, currentOf (createDoc s id title content now) i =
      if i = id then 1 else currentOf s i := by
    intro i
    rw [currentOf, createDoc, lookup_append, lookup_cons, lookup_nil]
    by_cases hi : i = id
    · subst hi
      rw [hnone, if_pos rfl, if_pos rfl]
      rfl
    · rw [if_neg hi, if_neg (Ne.symm hi), Option.or_none]
      rfl
  have hgrow : ∀ i, currentOf s i ≤ currentOf (createDoc s id title content now) i := by
    intro i
    rw [hcurrent]
    split
    · next hi => rw [hi, hzero]; exact Nat.zero_le _
    · exact le_refl _
  have hnever : ∀ v ∈ s.versions, v.docID ≠ id := by
    intro v hv hid
    have hv' := h.rows v hv
    rw [hid, hzero] at hv'
    omega
  have hversions : ∀ {v : Version}, v ∈ (createDoc s id title content now).versions →
      v ∈ s.versions ∨ v = ⟨id, 1, content, now⟩ := by
    intro v hv
    exact (List.mem_append.1 hv).imp_right List.mem_singleton.1
  refine ⟨⟨h.ids.append_singleton hnone, ?_, ?_, h.keys.append_singleton ?_, ?_, ?_⟩,
    ⟨fun _ hmem => hmem, hgrow, ?_⟩⟩
  · intro d hd
    rcases List.mem_append.1 hd with hd | hd
    · exact h.uuid d hd
    · rw [List.mem_singleton.1 hd]
      exact huuid
  · intro v hv
    rcases hversions hv with hv | rfl
    · exact ⟨(h.rows v hv).1, (h.rows v hv).2.trans (hgrow _)⟩
    · rw [hcurrent, if_pos rfl]
      exact ⟨Nat.one_pos, le_refl _⟩
  · rw [lookup_eq_none]
    exact fun v hv hkey => hnever v hv (Prod.ext_iff.1 hkey).1
  · intro v hv w hw hid hlt
    rcases hversions hv with hv | rfl
    · rcases hversions hw with hw | rfl
      · exact h.times v hv w hw hid hlt
      · exact absurd hid (hnever v hv)
    · rcases hversions hw with hw | rfl
      · exact absurd hid.symm (hnever w hw)
      · exact absurd hlt (lt_irrefl _)
  · intro d hd hdel
    rcases List.mem_append.1 hd with hd | hd
    · exact h.deleted d hd hdel
    · rw [List.mem_singleton.1 hd] at hdel
      exact absurd hdel Bool.false_ne_true
  · intro v hv
    rcases hversions hv with hv | rfl
    · exact Or.inl hv
    · exact Or.inr (hzero ▸ Nat.one_pos)

/-- A doc is saved, not earlier than before. -/
theorem saveDoc_ok {s : State} (h : StoreOk s) {d : DocRow} (hd : d ∈ s.docs) (content : Bytes)
    {now : ℕ} (hnow : ∀ v ∈ s.versions, v.docID = d.id → v.createdAt ≤ now) :
    StoreOk (saveDoc s d content now) ∧ Grows s (saveDoc s d content now) := by
  have hid : ∀ r : DocRow, (if r.id = d.id then
      { r with currentVersion := r.currentVersion + 1, content := content, updatedAt := now }
      else r).id = r.id := by
    intro r
    split <;> rfl
  have hcurrent : ∀ i, currentOf (saveDoc s d content now) i =
      if i = d.id then d.currentVersion + 1 else currentOf s i := by
    intro i
    rw [currentOf, saveDoc, lookup_map hid]
    by_cases hi : i = d.id
    · subst hi
      rw [h.ids.lookup_of_mem hd, Option.map_some, if_pos rfl, if_pos rfl]
      rfl
    · rw [if_neg hi, currentOf]
      cases hr : lookup DocRow.id s.docs i with
      | none => rfl
      | some r =>
          have hne : ¬ r.id = d.id := (lookup_eq_some hr).2.symm ▸ hi
          rw [Option.map_some, if_neg hne]
  have hold : currentOf s d.id = d.currentVersion := currentOf_of_mem h hd
  have hgrow : ∀ i, currentOf s i ≤ currentOf (saveDoc s d content now) i := by
    intro i
    rw [hcurrent]
    split
    · next hi => rw [hi, hold]; exact Nat.le_succ _
    · exact le_refl _
  have hbound : ∀ v ∈ s.versions, v.docID = d.id → v.rev ≤ d.currentVersion := by
    intro v hv hvid
    exact hold ▸ hvid ▸ (h.rows v hv).2
  have hversions : ∀ {v : Version}, v ∈ (saveDoc s d content now).versions →
      v ∈ s.versions ∨ v = ⟨d.id, d.currentVersion + 1, content, now⟩ := by
    intro v hv
    exact (List.mem_append.1 hv).imp_right List.mem_singleton.1
  refine ⟨⟨h.ids.map hid, ?_, ?_, h.keys.append_singleton ?_, ?_, ?_⟩,
    ⟨fun _ hmem => hmem, hgrow, ?_⟩⟩
  · intro r hr
    obtain ⟨r', hr', rfl⟩ := List.mem_map.1 hr
    rw [hid]
    exact h.uuid r' hr'
  · intro v hv
    rcases hversions hv with hv | rfl
    · exact ⟨(h.rows v hv).1, (h.rows v hv).2.trans (hgrow _)⟩
    · rw [hcurrent, if_pos rfl]
      exact ⟨Nat.succ_pos _, le_refl _⟩
  · rw [lookup_eq_none]
    intro v hv hkey
    obtain ⟨hvid, hvrev⟩ := Prod.ext_iff.1 hkey
    have hle := hbound v hv hvid
    dsimp only at hvrev
    omega
  · intro v hv w hw hvw hlt
    rcases hversions hv with hv | rfl
    · rcases hversions hw with hw | rfl
      · exact h.times v hv w hw hvw hlt
      · exact hnow v hv hvw
    · rcases hversions hw with hw | rfl
      · have hle := hbound w hw hvw.symm
        dsimp only at hlt
        omega
      · exact absurd hlt (lt_irrefl _)
  · intro r hr hdel
    obtain ⟨r', hr', rfl⟩ := List.mem_map.1 hr
    rw [hid]
    refine h.deleted r' hr' ?_
    split at hdel <;> exact hdel
  · intro v hv
    rcases hversions hv with hv | rfl
    · exact Or.inl hv
    · exact Or.inr (hold ▸ Nat.lt_succ_self _)

theorem pruneVersions_ok {s : State} (h : StoreOk s) (keep : Version → Bool) :
    StoreOk { s with versions := s.versions.filter keep } ∧
      Grows s { s with versions := s.versions.filter keep } := by
  refine ⟨⟨h.ids, h.uuid, fun v hv => h.rows v (List.mem_of_mem_filter hv), h.keys.filter keep, ?_,
    h.deleted⟩, ⟨fun _ hmem => hmem, fun _ => le_refl _, fun v hv =>
      Or.inl (List.mem_of_mem_filter hv)⟩⟩
  intro v hv w hw
  exact h.times v (List.mem_of_mem_filter hv) w (List.mem_of_mem_filter hw)

/-! ### Reading -/

theorem mem_listAllDocs {s : State} {offset : ℕ} {d : DocRow} (h : d ∈ listAllDocs s offset) :
    d ∈ s.docs :=
  List.mem_of_mem_filter
    ((List.mem_insertionSort _).1 (List.mem_of_mem_drop (List.mem_of_mem_take h)))

theorem ReadOk.fetchPage {s : State} (h : StoreOk s) {docs : List DocRow} (hread : ReadOk s docs)
    (offset : ℕ) : ReadOk s (fetchPage s offset docs).1 := by
  intro d hd
  rcases List.mem_append.1 hd with hd | hd
  · exact hread d hd
  · have hmem := mem_listAllDocs hd
    exact ⟨h.uuid d hmem, (currentOf_of_mem h hmem).ge⟩

theorem mem_versionsAfter {s : State} {cursors : List Cursor} {v : Version} :
    v ∈ versionsAfter s cursors ↔
      v ∈ s.versions ∧ (∃ d ∈ activeDocs s, d.id = v.docID) ∧ cursorRev cursors v.docID < v.rev := by
  simp [versionsAfter, List.mem_insertionSort, and_assoc]

/-- **The revisions of a doc come in order.** -/
theorem versionsAfter_increasing {s : State} (h : StoreOk s) (cursors : List Cursor) :
    (versionsAfter s cursors).Pairwise fun v w => v.docID = w.docID → v.rev < w.rev := by
  have hnodup : (versionsAfter s cursors).Nodup := by
    refine (List.Nodup.filter _ ((List.perm_insertionSort _ _).nodup_iff.2 ?_))
    exact (List.Nodup.of_map _ h.keys).filter _
  have hsorted : (versionsAfter s cursors).Pairwise versionLe :=
    (List.pairwise_insertionSort versionLe _).filter _
  refine (hsorted.and hnodup).imp_of_mem ?_
  intro v w hv hw hvw hid
  have hv := (mem_versionsAfter.1 hv).1
  have hw := (mem_versionsAfter.1 hw).1
  rcases Nat.lt_trichotomy v.rev w.rev with hrev | hrev | hrev
  · exact hrev
  · exact absurd (h.keys.eq_of_key hv hw (Prod.ext hid hrev)) hvw.2
  · -- a later revision is not older, so the two are of one time, and then the revision decides
    have htime := h.times w hw v hv hid.symm hrev
    rcases hvw.1 with hlt | ⟨-, hlt | ⟨-, hle⟩⟩
    · omega
    · exact absurd hlt (hid ▸ List.lt_irrefl _)
    · omega

/-- What comes before a revision that was read was read as well. -/
theorem mem_listDocVersionsAfter_of_le {s : State} (h : StoreOk s) {cursors : List Cursor}
    {limit : ℕ} {v w : Version} (hv : v ∈ versionsAfter s cursors)
    (hw : w ∈ listDocVersionsAfter s cursors limit) (hid : v.docID = w.docID)
    (hrev : v.rev ≤ w.rev) : v ∈ listDocVersionsAfter s cursors limit := by
  have hsplit := List.take_append_drop limit (versionsAfter s cursors)
  have hincreasing := versionsAfter_increasing h cursors
  rw [← hsplit] at hv hincreasing
  rcases List.mem_append.1 hv with hv | hv
  · exact hv
  · have hlt := (List.pairwise_append.1 hincreasing).2.2 w hw v hv hid.symm
    omega

/-- A doc that has never been deleted is active, if it has a revision. -/
theorem exists_active {s : State} (h : StoreOk s) {id : Bytes} (hid : id ∉ s.everDeleted)
    (hpos : 0 < currentOf s id) : ∃ d ∈ activeDocs s, d.id = id := by
  unfold currentOf at hpos
  cases hd : lookup DocRow.id s.docs id with
  | none =>
      rw [hd] at hpos
      exact absurd hpos (lt_irrefl _)
  | some d =>
      obtain ⟨hmem, rfl⟩ := lookup_eq_some hd
      refine ⟨d, List.mem_filter.2 ⟨hmem, ?_⟩, rfl⟩
      rw [Bool.not_eq_true', ← Bool.not_eq_true]
      exact fun hdel => hid (h.deleted d hmem hdel)

theorem readRev_of_active {s : State} (h : StoreOk s) {docs : List DocRow} {d : DocRow}
    (hd : d ∈ activeDocs s)
    (hread : (current docs d.id).map DocRow.currentVersion = some d.currentVersion) :
    readRev docs d.id = currentOf s d.id := by
  rw [readRev, hread, currentOf_of_mem h (List.mem_of_mem_filter hd)]
  rfl

/-- **The revisions are read** while the docs are as they were read. -/
theorem Loop.readVersions {env : Env} {s : State} (hinv : Inv env s) {docs : List DocRow}
    (hrun : s.run = .versions docs) (horderly : orderly env s .readVersions = true)
    (hread : ReadOk s docs) :
    let rest := listDocVersionsAfter s (headCursors s.remote) env.maxRevisionsPerRun
    Loop env s docs (decide (rest.length = env.maxRevisionsPerRun)) rest [] (headTree s.remote) := by
  intro rest
  rw [orderly, hrun] at horderly
  obtain ⟨hknown, hends⟩ := (Bool.and_eq_true _ _ ▸ horderly :)
  have hknown : ∀ v ∈ rest, (current docs v.docID).isSome = true := List.all_eq_true.1 hknown
  have hactive : decide (rest.length = env.maxRevisionsPerRun) = false → ∀ d ∈ activeDocs s,
      readRev docs d.id = currentOf s d.id := by
    intro hcapped d hd
    rcases (Bool.or_eq_true _ _ ▸ hends :) with hends | hends
    · exact absurd (hcapped.symm.trans hends) Bool.noConfusion
    · exact readRev_of_active hinv.store hd (of_decide_eq_true (List.all_eq_true.1 hends d hd))
  have hrest : ∀ v ∈ rest, v ∈ versionsAfter s (headCursors s.remote) :=
    fun v hv => List.mem_of_mem_take hv
  have hcurrent : ∀ v ∈ rest, v.rev ≤ currentOf s v.docID :=
    fun v hv => (hinv.store.rows v (mem_versionsAfter.1 (hrest v hv)).1).2
  refine ⟨hread, by rw [List.append_nil]; exact hinv.remote, by rw [List.append_nil], ?_, ?_, ?_, ?_,
    ?_, fun c hc => absurd hc List.not_mem_nil⟩
  · intro hcapped id hid
    rcases Nat.eq_zero_or_pos (cursorRev (headTree s.remote).cursors id) with hzero | hpos
    · exact hzero ▸ Nat.zero_le _
    · have hcurrent := (hinv.remote.exported id hid).current
      obtain ⟨d, hd, rfl⟩ := exists_active hinv.store hid (Nat.lt_of_lt_of_le hpos hcurrent)
      rw [hactive hcapped d hd]
      exact hcurrent
  · refine ⟨fun v hv => ⟨hknown v hv, hcurrent v hv⟩, ?_, ?_, ?_, ?_⟩
    · exact fun v hv => (mem_versionsAfter.1 (hrest v hv)).2.2
    · exact (versionsAfter_increasing hinv.store _).sublist (List.take_sublist ..)
    · intro v hv w hw hid hrev
      exact hinv.store.keys.eq_of_key hw (mem_versionsAfter.1 (hrest v hv)).1 (Prod.ext hid hrev)
    · intro v hv w hw hid hcursor hrev
      refine mem_listDocVersionsAfter_of_le hinv.store ?_ hv hid hrev
      exact mem_versionsAfter.2 ⟨hw, hid ▸ (mem_versionsAfter.1 (hrest v hv)).2.1, hcursor⟩
  · intro hcapped v hv
    obtain ⟨-, ⟨d, hd, hid⟩, -⟩ := mem_versionsAfter.1 (hrest v hv)
    have hread := hactive hcapped d hd
    rw [hid] at hread
    exact hread.symm ▸ hcurrent v hv
  · intro hcapped _ v hv hid hcursor hrev
    have hlength : rest.length ≠ env.maxRevisionsPerRun := of_decide_eq_false hcapped
    have hall : rest = versionsAfter s (headCursors s.remote) := by
      refine List.take_of_length_le ?_
      have htake : rest.length = min env.maxRevisionsPerRun _ := List.length_take
      omega
    rw [hall]
    refine mem_versionsAfter.2 ⟨hv, ?_, hcursor⟩
    exact exists_active hinv.store hid
      (Nat.lt_of_lt_of_le (hinv.store.rows v hv).1 (hinv.store.rows v hv).2)
  · intro hcapped
    rw [List.length_nil, Nat.zero_add]
    exact of_decide_eq_true hcapped

/-! ### A revision is committed -/

theorem cursorRev_put (cursors : List Cursor) (c : Cursor) (id : Bytes) :
    cursorRev (put Cursor.docID cursors c) id =
      if id = c.docID then c.rev else cursorRev cursors id := by
  rw [cursorRev, lookup_put]
  split <;> rfl

theorem revsOf_singleton (c : Commit) (id : Bytes) :
    revsOf [c] id = ((c.revision.bind fun r => if r.1 = id then some r.2 else none).toList) := by
  rw [revsOf, List.filterMap_cons, List.filterMap_nil]
  split
  · next hnone => rw [hnone]; rfl
  · next r hr => rw [hr]; rfl

/-- The next revision of a doc, with none before it left out. -/
structure NextRevision (env : Env) (s : State) (history : List Commit) (v : Version) (c : Commit) :
    Prop where
  revision : c.revision = some (v.docID, v.rev)
  cursor : ∀ id, cursorRev c.tree.cursors id =
    if id = v.docID then v.rev else cursorRev (headCursors history) id
  has : HasRevision env c v
  later : cursorRev (headCursors history) v.docID < v.rev
  row : ∀ w ∈ s.versions, w.docID = v.docID → w.rev = v.rev → w = v
  before : ∀ w ∈ s.versions, w.docID = v.docID → w.rev < v.rev →
    w.rev ≤ cursorRev (headCursors history) v.docID
  current : v.rev ≤ currentOf s v.docID

/-- **What the history has of a doc** after a revision of it, or of another doc. -/
theorem Exported.commit {env : Env} {s : State} {history : List Commit} {id : Bytes}
    (h : Exported env s history id) (hne : history ≠ []) {v : Version} {c : Commit}
    (hv : NextRevision env s history v c) : Exported env s (history ++ [c]) id := by
  have hrevs : revsOf (history ++ [c]) id =
      revsOf history id ++ if v.docID = id then [v.rev] else [] := by
    rw [revsOf_append, revsOf_singleton, hv.revision, Option.bind_some]
    split <;> rfl
  have hcontent : ∀ c' ∈ history ++ [c], ∀ w ∈ s.versions, w.docID = id →
      c'.revision = some (id, w.rev) → HasRevision env c' w := by
    intro c' hc' w hw hid hrev
    rcases List.mem_append.1 hc' with hc' | hc'
    · exact h.content c' hc' w hw hid hrev
    · obtain rfl := List.mem_singleton.1 hc'
      rw [hv.revision, Option.some_inj] at hrev
      obtain ⟨hdoc, hrev⟩ := Prod.ext_iff.1 hrev
      rw [hv.row w hw (hid.trans hdoc.symm) hrev.symm]
      exact hv.has
  by_cases hid : v.docID = id
  · subst hid
    have hcursor : cursorRev (headCursors (history ++ [c])) v.docID = v.rev := by
      rw [headCursors_append_singleton, hv.cursor, if_pos rfl]
    rw [if_pos rfl] at hrevs
    have hlater := hv.later
    refine ⟨?_, ?_, ?_, ?_, hcontent, hcursor ▸ hv.current⟩
    · rw [hrevs, List.pairwise_append]
      refine ⟨h.increasing, List.pairwise_singleton .., ?_⟩
      intro r hr r' hr'
      rw [List.mem_singleton.1 hr']
      exact Nat.lt_of_le_of_lt (h.range r hr).2 hlater
    · rw [firstRev_append hne, hcursor]
      exact h.first.trans hlater.le
    · intro r hr
      rw [firstRev_append hne, hcursor]
      rcases List.mem_append.1 (hrevs ▸ hr) with hr | hr
      · exact ⟨(h.range r hr).1, (h.range r hr).2.trans hlater.le⟩
      · rw [List.mem_singleton.1 hr]
        exact ⟨Nat.lt_of_le_of_lt h.first hlater, le_refl _⟩
    · intro w hw hwid hfirst hle
      rw [firstRev_append hne] at hfirst
      rw [hcursor] at hle
      rw [hrevs]
      rcases Nat.lt_or_eq_of_le hle with hlt | heq
      · exact List.mem_append_left _ (h.committed w hw hwid hfirst (hv.before w hw hwid hlt))
      · exact List.mem_append_right _ (heq ▸ List.mem_singleton.2 rfl)
  · have hcursor : cursorRev (headCursors (history ++ [c])) id =
        cursorRev (headCursors history) id := by
      rw [headCursors_append_singleton, hv.cursor, if_neg (Ne.symm hid)]
    rw [if_neg hid, List.append_nil] at hrevs
    refine ⟨hrevs ▸ h.increasing, ?_, ?_, ?_, hcontent, hcursor ▸ h.current⟩
    · rw [firstRev_append hne, hcursor]
      exact h.first
    · rw [hrevs, firstRev_append hne, hcursor]
      exact h.range
    · rw [hrevs, firstRev_append hne, hcursor]
      exact h.committed

/-- A revision of a doc that was read is written, and its cursor names its file. -/
theorem writeRevision_eq (env : Env) {s : State} {docs : List DocRow} {tree : Tree} {v : Version}
    (hread : ReadOk s docs) (hfiles : FilesOk tree.cursors)
    (hcurrent : (current docs v.docID).isSome = true) :
    isUuid v.docID = true ∧ ∃ title files,
      writeRevision env docs tree v = some
        ⟨some (put Cursor.docID tree.cursors ⟨v.docID, v.rev, fileName env title v.docID⟩), files⟩ ∧
      lookup File.name files (fileName env title v.docID) =
        some ⟨fileName env title v.docID, env.exportContent v.docID v.content⟩ := by
  obtain ⟨d, hd⟩ := Option.isSome_iff_exists.1 hcurrent
  obtain ⟨hmem, hid⟩ := lookup_eq_some hd
  have hold : ∀ old, ((lookup Cursor.docID tree.cursors v.docID).map Cursor.file).getD [] = old →
      ¬ (old ≠ [] ∧ old ≠ fileName env d.title d.id ∧
        (isGeneratedName old = false ∨ 47 ∈ old)) := by
    rintro old hold ⟨hne, -, hbad⟩
    cases hc : lookup Cursor.docID tree.cursors v.docID with
    | none =>
        rw [hc] at hold
        exact hne hold.symm
    | some c =>
        rw [hc] at hold
        obtain rfl : c.file = old := hold
        obtain ⟨hgenerated, hslash⟩ := hfiles c (lookup_eq_some hc).1
        rcases hbad with hbad | hbad
        · exact Bool.false_ne_true (hbad.symm.trans hgenerated)
        · exact hslash hbad
  refine ⟨hid ▸ (hread d (List.mem_reverse.1 hmem)).1, d.title, ?_⟩
  rw [writeRevision, hd, Option.getD_some]
  dsimp only
  rw [if_neg (hold _ rfl), hid]
  exact ⟨_, rfl, by rw [lookup_put, if_pos rfl]⟩

/-- **A revision is committed**, and the run goes on with the rest. -/
theorem Loop.commitRevision {env : Env} {s : State} {docs : List DocRow} {capped : Bool}
    {v : Version} {rest : List Version} {commits : List Commit} {tree : Tree}
    (h : Loop env s docs capped (v :: rest) commits tree) (hne : s.remote ≠ []) :
    ∃ tree', writeRevision env docs tree v = some tree' ∧
      commitWith (s.remote ++ commits) tree' (some (v.docID, v.rev)) =
        [⟨tree', some (v.docID, v.rev)⟩] ∧
      Loop env s docs capped rest (commits ++ [⟨tree', some (v.docID, v.rev)⟩]) tree' := by
  have hhead : tree.cursors = headCursors (s.remote ++ commits) := by rw [h.head, headCursors]
  have hcurrent := h.pending.read v List.mem_cons_self
  obtain ⟨huuid, title, files, hwrite, hfile⟩ :=
    writeRevision_eq env h.read (hhead ▸ h.history.files) hcurrent.1
  generalize hname : fileName env title v.docID = name at hwrite hfile
  obtain ⟨tree', htree'⟩ : ∃ tree' : Tree, tree' =
      ⟨some (put Cursor.docID tree.cursors ⟨v.docID, v.rev, name⟩), files⟩ := ⟨_, rfl⟩
  have hcursors : tree'.cursors = put Cursor.docID tree.cursors ⟨v.docID, v.rev, name⟩ := by
    rw [htree', Tree.cursors, Option.getD_some]
  have hcursor : ∀ id, cursorRev tree'.cursors id =
      if id = v.docID then v.rev else cursorRev tree.cursors id := by
    intro id
    rw [hcursors, cursorRev_put]
  have hlater := h.pending.later v List.mem_cons_self
  obtain ⟨hfirst, hrest⟩ := List.pairwise_cons.1 h.pending.increasing
  have hnonempty : s.remote ++ commits ≠ [] := List.append_ne_nil_of_left_ne_nil hne _
  have hnext : NextRevision env s (s.remote ++ commits) v ⟨tree', some (v.docID, v.rev)⟩ := by
    refine ⟨rfl, hhead ▸ hcursor, ⟨title, ?_, ?_⟩, hhead ▸ hlater,
      h.pending.row v List.mem_cons_self, ?_, hcurrent.2⟩
    · rw [hcursors, lookup_put, if_pos rfl, hname]
    · rw [htree', hname]
      exact hfile
    · intro w hw hid hlt
      by_contra hcontra
      rw [← hhead] at hcontra
      have hmem := h.pending.before v List.mem_cons_self w hw hid (hid ▸ by omega) hlt.le
      rcases List.mem_cons.1 hmem with rfl | hmem
      · exact lt_irrefl _ hlt
      · exact absurd (hfirst w hmem hid.symm) (by omega)
  refine ⟨tree', htree' ▸ hwrite, ?_, ?_⟩
  · rcases commitWith_cases (s.remote ++ commits) tree' (some (v.docID, v.rev)) with
      hmade | ⟨-, -, hsame⟩
    · exact hmade
    · have hmoved := hsame v.docID
      rw [hcursor, if_pos rfl, ← hhead] at hmoved
      omega
  · -- the cursor of another doc stays, and that of this one is between it and the rest
    have hle : ∀ w : Version, cursorRev tree'.cursors w.docID < w.rev →
        cursorRev tree.cursors w.docID < w.rev := by
      intro w hw
      rw [hcursor] at hw
      split at hw
      · next hid => rw [hid]; omega
      · exact hw
    have hrest' : ∀ w, w ∈ v :: rest → cursorRev tree'.cursors w.docID < w.rev → w ∈ rest := by
      intro w hw hlt
      rcases List.mem_cons.1 hw with rfl | hw
      · rw [hcursor, if_pos rfl] at hlt
        exact absurd hlt (lt_irrefl _)
      · exact hw
    refine
      { read := h.read
        history := ⟨fun _ => ?_, ?_, ?_⟩
        head := ?_
        snapshot := ?_
        pending := ⟨?_, ?_, hrest, ?_, ?_⟩
        within := fun hcapped w hw => h.within hcapped w (List.mem_cons_of_mem v hw)
        complete := ?_
        count := ?_
        made := ?_ }
    · rw [← List.append_assoc, headTree, List.getLast?_append_of_ne_nil _ (by simp)]
      rw [htree']
      exact fun hnone => nomatch hnone
    · rw [← List.append_assoc, headCursors_append_singleton]
      intro c hc
      rw [hcursors] at hc
      rcases mem_put hc with rfl | hc
      · rw [← hname]
        exact fileName_generated env title huuid
      · exact h.history.files c (hhead ▸ hc)
    · intro id hid
      rw [← List.append_assoc]
      exact (h.history.exported id hid).commit hnonempty hnext
    · rw [← List.append_assoc, headTree, List.getLast?_append_of_ne_nil _ (by simp)]
      rfl
    · intro hcapped id hid
      rw [hcursor]
      split
      · next heq => exact heq ▸ h.within hcapped v List.mem_cons_self
      · exact h.snapshot hcapped id hid
    · exact fun w hw => h.pending.read w (List.mem_cons_of_mem v hw)
    · intro w hw
      rw [hcursor]
      split
      · next hid => exact hfirst w hw hid.symm
      · exact h.pending.later w (List.mem_cons_of_mem v hw)
    · exact fun w hw => h.pending.row w (List.mem_cons_of_mem v hw)
    · intro w hw u hu hid hlt hrev
      exact hrest' u (h.pending.before w (List.mem_cons_of_mem v hw) u hu hid (hle u hlt) hrev) hlt
    · intro hcapped _ u hu hid hlt hrev
      exact hrest' u (h.complete hcapped hnonempty u hu hid (hle u hlt) hrev) hlt
    · intro hcapped
      have hcount := h.count hcapped
      rw [List.length_cons] at hcount
      rw [List.length_append, List.length_singleton]
      omega
    · intro c hc
      rcases List.mem_append.1 hc with hc | hc
      · exact h.made c hc
      · rw [List.mem_singleton.1 hc]
        rfl

/-! ### The end of a run -/

theorem cursorRev_finalCursors (env : Env) (docs : List DocRow) (cursors : List Cursor)
    (id : Bytes) : cursorRev (finalCursors env docs cursors) id = readRev docs id := by
  have hkey : ∀ d : DocRow,
      (⟨d.id, d.currentVersion, fileName env d.title d.id⟩ : Cursor).docID = d.id := fun _ => rfl
  rw [cursorRev, finalCursors, lookup_putAll_reverse, ← List.map_reverse, lookup_map hkey, readRev,
    current]
  cases hd : lookup DocRow.id docs.reverse id with
  | some d => rfl
  | none =>
      rw [Option.map_none, Option.none_or]
      have hnone : lookup Cursor.docID (cursors.filter fun c => (current docs c.docID).isSome) id =
          none := by
        rw [lookup_eq_none]
        rintro c hc rfl
        have hsome := (List.mem_filter.1 hc).2
        rw [current, hd] at hsome
        exact Bool.false_ne_true hsome
      rw [hnone]
      rfl

theorem filesOk_finalCursors (env : Env) {s : State} {docs : List DocRow} {cursors : List Cursor}
    (hread : ReadOk s docs) (hfiles : FilesOk cursors) : FilesOk (finalCursors env docs cursors) := by
  intro c hc
  rcases mem_putAll hc with hc | hc
  · obtain ⟨d, hd, rfl⟩ := List.mem_map.1 hc
    exact fileName_generated env d.title (hread d hd).1
  · exact hfiles c (List.mem_of_mem_filter hc)

/-- **What the history has of a doc** when its cursor is moved over no revision. -/
theorem Exported.moved {env : Env} {s : State} {history : List Commit} {id : Bytes}
    (h : Exported env s history id) (hne : history ≠ []) {c : Commit} (hnone : c.revision = none)
    (hle : cursorRev (headCursors history) id ≤ cursorRev c.tree.cursors id)
    (hcurrent : cursorRev c.tree.cursors id ≤ currentOf s id)
    (hover : ∀ v ∈ s.versions, v.docID = id → cursorRev (headCursors history) id < v.rev →
      ¬ v.rev ≤ cursorRev c.tree.cursors id) : Exported env s (history ++ [c]) id := by
  have hrevs : revsOf (history ++ [c]) id = revsOf history id := by
    rw [revsOf_append, revsOf_singleton, hnone, Option.bind_none, Option.toList_none,
      List.append_nil]
  have hfirst := firstRev_append hne [c] id
  refine ⟨hrevs ▸ h.increasing, ?_, ?_, ?_, ?_, ?_⟩
  · rw [hfirst, headCursors_append_singleton]
    exact h.first.trans hle
  · intro r hr
    rw [hfirst, headCursors_append_singleton]
    have hr := h.range r (hrevs ▸ hr)
    exact ⟨hr.1, hr.2.trans hle⟩
  · intro v hv hid hlt hcursor
    rw [hfirst] at hlt
    rw [headCursors_append_singleton] at hcursor
    rw [hrevs]
    refine h.committed v hv hid hlt (Nat.le_of_not_lt fun hcontra => ?_)
    exact hover v hv hid hcontra hcursor
  · intro c' hc' v hv hid hrev
    rcases List.mem_append.1 hc' with hc' | hc'
    · exact h.content c' hc' v hv hid hrev
    · rw [List.mem_singleton.1 hc', hnone] at hrev
      cases hrev
  · rw [headCursors_append_singleton]
    exact hcurrent

/-- What the first export has of a doc. -/
theorem Exported.initial {env : Env} {s : State} {id : Bytes} {c : Commit}
    (hnone : c.revision = none) (hcurrent : cursorRev c.tree.cursors id ≤ currentOf s id) :
    Exported env s [c] id := by
  have hrevs : revsOf [c] id = [] := by
    rw [revsOf_singleton, hnone]
    rfl
  refine ⟨hrevs ▸ List.Pairwise.nil, le_refl _, ?_, ?_, ?_, hcurrent⟩
  · rw [hrevs]
    exact fun r hr => absurd hr List.not_mem_nil
  · exact fun v _ _ hlt hle => absurd hlt (Nat.not_lt.2 hle)
  · intro c' hc' v _ _ hrev
    rw [List.mem_singleton.1 hc', hnone] at hrev
    cases hrev

/-- What the history has of a doc does not depend on the last tree but for the cursors. -/
theorem HistoryOk.append {env : Env} {s : State} {history made : List Commit}
    (h : HistoryOk env s history) (hmade : made = [] ∨ ∃ c, made = [c] ∧ c.tree.state ≠ none ∧
      FilesOk c.tree.cursors ∧ ∀ id, id ∉ s.everDeleted → Exported env s (history ++ [c]) id) :
    HistoryOk env s (history ++ made) := by
  rcases hmade with rfl | ⟨c, rfl, hstate, hfiles, hexported⟩
  · rw [List.append_nil]
    exact h
  · refine ⟨fun _ => ?_, ?_, hexported⟩
    · rw [headTree, List.getLast?_append_of_ne_nil _ (by simp)]
      exact hstate
    · rw [headCursors_append_singleton]
      exact hfiles

/-- **The docs are exported** and the cursors moved to the revisions that were read first. -/
theorem Loop.exportPage {env : Env} {s : State} {docs : List DocRow} {commits : List Commit}
    {tree : Tree} (h : Loop env s docs false [] commits tree) (files : List File) :
    let tree' : Tree := ⟨some (finalCursors env docs tree.cursors), files⟩
    let made := commitWith (s.remote ++ commits) tree' none
    HistoryOk env s (s.remote ++ (commits ++ made)) ∧ Reached env s docs false (commits ++ made) ∧
      s.remote ++ (commits ++ made) ≠ [] := by
  intro tree' made
  have hhead : tree.cursors = headCursors (s.remote ++ commits) := by rw [h.head, headCursors]
  have hcursor : ∀ id, cursorRev tree'.cursors id = readRev docs id :=
    cursorRev_finalCursors env docs tree.cursors
  have hcases := commitWith_cases (s.remote ++ commits) tree' none
  rw [← List.append_assoc]
  refine ⟨h.history.append ?_, ⟨fun hcapped => absurd hcapped Bool.false_ne_true, ?_⟩, ?_⟩
  · rcases hcases with hmade | ⟨hmade, -⟩
    · refine Or.inr ⟨_, hmade, Option.some_ne_none _,
        filesOk_finalCursors env h.read (hhead ▸ h.history.files), fun id hid => ?_⟩
      have hcurrent : cursorRev tree'.cursors id ≤ currentOf s id :=
        (hcursor id).symm ▸ readRev_le h.read id
      by_cases hempty : s.remote ++ commits = []
      · rw [hempty, List.nil_append]
        exact Exported.initial rfl hcurrent
      · refine (h.history.exported id hid).moved hempty rfl ?_ hcurrent ?_
        · rw [← hhead, hcursor]
          exact h.snapshot rfl id hid
        · rintro v hv rfl hlt hle
          rw [← hhead] at hlt
          exact absurd (h.complete rfl hempty v hv hid hlt (hcursor v.docID ▸ hle)) List.not_mem_nil
    · exact Or.inl hmade
  · intro _ id _
    rw [← List.append_assoc, ← hcursor id]
    rcases hcases with hmade | ⟨hmade, -, hsame⟩
    · rw [show made = _ from hmade, headCursors_append_singleton]
    · rw [show made = [] from hmade, List.append_nil, hsame]
  · rcases hcases with hmade | ⟨-, hstate, -⟩
    · rw [show made = _ from hmade]
      exact List.append_ne_nil_of_right_ne_nil _ (List.cons_ne_nil _ _)
    · refine List.append_ne_nil_of_left_ne_nil (fun hnil => ?_) _
      rw [hnil] at hstate
      exact Bool.false_ne_true hstate

/-! ### Every step -/

theorem Inv.exportAll {env : Env} {s : State} (h : Inv env s) {docs : List DocRow}
    (hread : ReadOk s docs) (hstate : (headTree s.remote).state = none) :
    Loop env s docs false [] [] (headTree s.remote) := by
  have hnil : s.remote = [] := by
    by_contra hne
    exact h.remote.state hne hstate
  have hzero : ∀ id, cursorRev (headTree s.remote).cursors id = 0 := by
    intro id
    rw [hnil]
    rfl
  refine ⟨hread, by rw [List.append_nil]; exact h.remote, by rw [List.append_nil], ?_, ?_, ?_, ?_,
    ?_, ?_⟩
  · exact fun _ id _ => (hzero id).symm ▸ Nat.zero_le _
  · refine ⟨?_, ?_, List.Pairwise.nil, ?_, ?_⟩ <;> exact fun v hv => absurd hv List.not_mem_nil
  · exact fun _ v hv => absurd hv List.not_mem_nil
  · exact fun _ hne => absurd (by rw [hnil, List.append_nil]) hne
  · exact fun hcapped => absurd hcapped Bool.false_ne_true
  · exact fun c hc => absurd hc List.not_mem_nil

/-- A step that only moves the run, or pushes it. -/
theorem Inv.move {env : Env} {s : State} (h : Inv env s) {remote : List Commit} {pc : RunPc}
    (hremote : HistoryOk env s remote) (hpc : RunOk env { s with remote := remote } pc) :
    Inv env { s with remote := remote, run := pc } where
  store := ⟨h.store.ids, h.store.uuid, h.store.rows, h.store.keys, h.store.times, h.store.deleted⟩
  remote := (grows_run s remote pc).history hremote
  run := (grows_run { s with remote := remote } remote pc).runOk rfl hpc

/-- **Every step keeps the invariant**, if the revisions are read while the docs are as read. -/
theorem Inv.next {env : Env} {s t : State} {ev : Event} (h : Inv env s)
    (horderly : orderly env s ev = true) (hnext : next env s ev = some t) : Inv env t := by
  have hmove : ∀ pc : RunPc, RunOk env s pc → Inv env { s with run := pc } :=
    fun pc hpc => h.move h.remote hpc
  cases ev with
  | createDoc id title content now =>
      simp only [DocExport.next] at hnext
      split at hnext
      · next hcond =>
          obtain rfl := Option.some.inj hnext
          obtain ⟨hstore, hgrows⟩ := createDoc_ok h.store title content now hcond.1
            fun d hd hid => hcond.2 (List.any_eq_true.2 ⟨d, hd, decide_eq_true hid⟩)
          exact hgrows.inv rfl rfl hstore h
      · cases hnext
  | saveDoc id content now =>
      simp only [DocExport.next] at hnext
      split at hnext
      · next d hd =>
          obtain ⟨hmem, rfl⟩ := lookup_eq_some hd
          split at hnext
          · next hnow =>
              obtain rfl := Option.some.inj hnext
              have hlater : ∀ v ∈ s.versions, v.docID = d.id → v.createdAt ≤ now := by
                intro v hv hid
                simpa [hid] using List.all_eq_true.1 hnow v hv
              obtain ⟨hstore, hgrows⟩ :=
                saveDoc_ok h.store (List.mem_of_mem_filter hmem) content hlater
              exact hgrows.inv rfl rfl hstore h
          · cases hnext
      · cases hnext
  | renameDoc id title now =>
      obtain rfl := Option.some.inj hnext
      have hok : StoreOk _ ∧ Grows s _ := h.store.map
        (fun d => if d.id = id ∧ d.deleted = false then
          { d with title := title, updatedAt := now } else d) s.everDeleted
        (fun d => by split <;> rfl) (fun d => by split <;> rfl)
        (fun _ hmem => hmem) fun d hd hdel => by
          refine h.store.deleted d hd ?_
          split at hdel <;> exact hdel
      exact hok.2.inv rfl rfl hok.1 h
  | deleteDocs ids =>
      obtain rfl := Option.some.inj hnext
      have hok : StoreOk _ ∧ Grows s _ := h.store.map
        (fun d => if d.id ∈ ids then { d with deleted := true } else d)
        (s.everDeleted ++ (s.docs.filter fun d => d.id ∈ ids).map DocRow.id)
        (fun d => by split <;> rfl) (fun d => by split <;> rfl)
        (fun _ hmem => List.mem_append_left _ hmem) fun d hd hdel => by
          split at hdel
          · next hmem =>
              exact List.mem_append_right _
                (List.mem_map_of_mem (List.mem_filter.2 ⟨hd, decide_eq_true hmem⟩))
          · exact List.mem_append_left _ (h.store.deleted d hd hdel)
      exact hok.2.inv rfl rfl hok.1 h
  | restoreDocs ids =>
      obtain rfl := Option.some.inj hnext
      have hok : StoreOk _ ∧ Grows s _ := h.store.map
        (fun d => if d.id ∈ ids then { d with deleted := false } else d) s.everDeleted
        (fun d => by split <;> rfl) (fun d => by split <;> rfl)
        (fun _ hmem => hmem) fun d hd hdel => by
          split at hdel
          · exact absurd hdel Bool.false_ne_true
          · exact h.store.deleted d hd hdel
      exact hok.2.inv rfl rfl hok.1 h
  | pruneVersions keep =>
      obtain rfl := Option.some.inj hnext
      obtain ⟨hstore, hgrows⟩ := pruneVersions_ok h.store keep
      exact hgrows.inv rfl rfl hstore h
  | begin =>
      simp only [DocExport.next] at hnext
      split at hnext
      · obtain rfl := Option.some.inj hnext
        exact hmove _ fun d hd => absurd hd List.not_mem_nil
      · cases hnext
  | readPage =>
      simp only [DocExport.next] at hnext
      split at hnext
      · next offset docs hrun =>
          have hread : ReadOk s docs := by
            have hok := h.run
            rwa [hrun] at hok
          have hread' := hread.fetchPage h.store offset
          obtain rfl := Option.some.inj hnext
          refine hmove _ ?_
          split
          · split
            · next hstate => exact h.exportAll hread' hstate
            · next hstate =>
                refine ⟨hread', fun hnil => hstate ?_⟩
                rw [hnil]
                rfl
          · exact hread'
      · cases hnext
  | readVersions =>
      simp only [DocExport.next] at hnext
      split at hnext
      · next docs hrun =>
          have hok := h.run
          rw [hrun] at hok
          obtain rfl := Option.some.inj hnext
          exact hmove _ ⟨Loop.readVersions h hrun horderly hok.1, hok.2⟩
      · cases hnext
  | commitRevision =>
      simp only [DocExport.next] at hnext
      split at hnext
      · next docs capped v rest commits tree hrun =>
          have hok := h.run
          rw [hrun] at hok
          obtain ⟨tree', hwrite, hmade, hloop⟩ := hok.1.commitRevision hok.2
          rw [hwrite] at hnext
          obtain rfl := Option.some.inj hnext
          rw [hmade]
          exact hmove _ ⟨hloop, hok.2⟩
      · next docs capped commits tree hrun =>
          have hok := h.run
          rw [hrun] at hok
          split at hnext
          · next hcapped =>
              obtain rfl := Option.some.inj hnext
              exact hmove _ ⟨hok.1.history, ⟨fun _ => ⟨hok.1.count hcapped, hok.1.made⟩,
                fun hnot => absurd (hcapped.symm.trans hnot) Bool.noConfusion⟩,
                List.append_ne_nil_of_left_ne_nil hok.2 _⟩
          · next hcapped =>
              obtain rfl := Option.some.inj hnext
              obtain rfl : capped = false := Bool.not_eq_true _ ▸ hcapped
              exact hmove (.exportAll docs commits tree 0 []) hok.1
      · cases hnext
  | exportPage =>
      simp only [DocExport.next] at hnext
      split at hnext
      · next docs commits tree offset again hrun =>
          have hok := h.run
          rw [hrun] at hok
          split at hnext
          · obtain rfl := Option.some.inj hnext
            exact hmove _ (hok.exportPage _)
          · obtain rfl := Option.some.inj hnext
            exact hmove (.exportAll docs commits tree _ _) hok
      · cases hnext
  | push ok =>
      simp only [DocExport.next] at hnext
      split at hnext
      · next docs capped commits hrun =>
          have hpushed := h.run
          rw [hrun] at hpushed
          split at hnext
          · obtain rfl := Option.some.inj hnext
            have hmoved : Inv env { s with remote := s.remote ++ commits, run := .idle } :=
              h.move hpushed.1 trivial
            exact hmoved
          · split at hnext
            · cases hnext
            · obtain rfl := Option.some.inj hnext
              exact hmove .idle trivial
      · cases hnext
  | abort =>
      simp only [DocExport.next] at hnext
      split at hnext
      · cases hnext
      · obtain rfl := Option.some.inj hnext
        exact hmove .idle trivial

/-! ### Every run -/

/-- A revision between the first export of its doc and `upTo` is committed once, and the commit has
its content in the file of the doc. -/
def ExportedOnce (env : Env) (s : State) (history : List Commit) (id : Bytes) (upTo : ℕ) : Prop :=
  (revsOf history id).Pairwise (· < ·) ∧
    ∀ v ∈ s.versions, v.docID = id → firstRev history id < v.rev → v.rev ≤ upTo →
      (revsOf history id).count v.rev = 1 ∧
        ∀ c ∈ history, c.revision = some (id, v.rev) → HasRevision env c v

theorem Exported.once {env : Env} {s : State} {history : List Commit} {id : Bytes}
    (h : Exported env s history id) :
    ExportedOnce env s history id (cursorRev (headCursors history) id) := by
  refine ⟨h.increasing, fun v hv hid hfirst hcursor => ⟨?_, fun c hc => h.content c hc v hv hid⟩⟩
  have hnodup : (revsOf history id).Nodup := h.increasing.imp fun hlt => hlt.ne
  exact List.count_eq_one_of_mem hnodup (h.committed v hv hid hfirst hcursor)

theorem inv_of_reachable {env : Env} {t : State}
    (h : ((exportMachine env).restrict fun s ev => orderly env s ev = true).Reachable t) : Inv env t := by
  refine h.invariant ?_ fun s ev t hs hstep => hs.next hstep.1 hstep.2
  rintro ⟨docs, versions, everDeleted, remote, run⟩ ⟨rfl, rfl, rfl, rfl, rfl⟩
  refine ⟨⟨List.nodup_nil, ?_, ?_, List.nodup_nil, ?_, ?_⟩, ⟨?_, ?_, ?_⟩, trivial⟩
  · exact fun d hd => absurd hd List.not_mem_nil
  · exact fun v hv => absurd hv List.not_mem_nil
  · exact fun v hv => absurd hv List.not_mem_nil
  · exact fun d hd => absurd hd List.not_mem_nil
  · exact fun hne => absurd rfl hne
  · exact fun c hc => absurd hc List.not_mem_nil
  · intro id _
    refine ⟨List.Pairwise.nil, le_refl _, ?_, ?_, ?_, Nat.zero_le _⟩
    · exact fun r hr => absurd hr List.not_mem_nil
    · exact fun v hv => absurd hv List.not_mem_nil
    · exact fun c hc => absurd hc List.not_mem_nil

/-- **Every revision is committed once**, in every run of the export that reads the revisions while
the docs are as it read them.  A run that is pushed has come to the revisions that were current
then, or has committed as many as it may; and none is left with a file name that it refuses. -/
theorem revisions_once (env : Env) {t : State}
    (h : ((exportMachine env).restrict fun s ev => orderly env s ev = true).Reachable t) :
    (∀ id, id ∉ t.everDeleted →
      ExportedOnce env t t.remote id (cursorRev (headCursors t.remote) id)) ∧
    (∀ docs capped commits, t.run = .push docs capped commits →
      (capped = true → commits.length = env.maxRevisionsPerRun ∧
        ∀ c ∈ commits, c.revision.isSome = true) ∧
      ∀ id, id ∉ t.everDeleted → ExportedOnce env t (t.remote ++ commits) id
        (if capped then cursorRev (headCursors (t.remote ++ commits)) id else readRev docs id)) ∧
    t.run ≠ .badName := by
  have hinv := inv_of_reachable h
  refine ⟨fun id hid => (hinv.remote.exported id hid).once, ?_, ?_⟩
  · intro docs capped commits hrun
    have hok := hinv.run
    rw [hrun] at hok
    obtain ⟨hhistory, ⟨hcapped, hall⟩, -⟩ := hok
    refine ⟨hcapped, fun id hid => ?_⟩
    have honce := (hhistory.exported id hid).once
    split
    · exact honce
    · next hnot =>
        rw [← hall (Bool.not_eq_true _ ▸ hnot) id hid]
        exact honce
  · intro hrun
    have hok := hinv.run
    rw [hrun] at hok
    exact hok

/-! ### Runs on fixed inputs -/

/-- Titles are in ASCII, and the docs have no attachments. -/
def asciiEnv (maxRevisionsPerRun : ℕ) (h : 0 < maxRevisionsPerRun) : Env where
  maxRevisionsPerRun := maxRevisionsPerRun
  maxRevisionsPerRun_pos := h
  toLower s := s.map fun b => if 65 ≤ b ∧ b ≤ 90 then b + 32 else b
  exportContent _ content := content

def emptyState : State := ⟨[], [], [], [], .idle⟩

def homeID : Bytes := bytes "0a0b0c0d-0000-4000-8000-000000000001"

def labID : Bytes := bytes "1a0b0c0d-0000-4000-8000-000000000002"

/-- A doc, and the first export. -/
def firstExport : List Event :=
  [.createDoc homeID (bytes "Home") (bytes "a") 0, .begin, .readPage, .exportPage, .push true]

/-- Two revisions are saved, and a run commits both. -/
def savedBefore : List Event :=
  firstExport ++ ([.saveDoc homeID (bytes "b") 1, .saveDoc homeID (bytes "c") 2, .begin, .readPage,
    .readVersions, .commitRevision, .commitRevision, .commitRevision, .push true] : List Event)

/-- A revision is saved after a run has read the docs, and another run follows. -/
def savedWithin : List Event :=
  firstExport ++ ([.begin, .readPage, .saveDoc homeID (bytes "b") 1, .readVersions,
    .commitRevision, .commitRevision, .exportPage, .push true, .begin, .readPage, .readVersions,
    .commitRevision, .commitRevision, .exportPage, .push true] : List Event)

/-- A doc is created after a run has read the docs, and saved before the next run. -/
def createdWithin : List Event :=
  firstExport ++ ([.begin, .readPage, .createDoc labID (bytes "Lab") (bytes "b") 1, .readVersions,
    .commitRevision, .commitRevision, .push true, .saveDoc labID (bytes "c") 2, .begin, .readPage,
    .readVersions, .commitRevision] : List Event)

theorem revisions_once_sample : ∃ t : State,
    ExportedOnce (asciiEnv 2 (by decide)) t t.remote homeID
      (cursorRev (headCursors t.remote) homeID) ∧ revsOf t.remote homeID = [2, 3] := by
  have hrun : (savedBefore.foldlM (fun s ev =>
        if orderly (asciiEnv 2 (by decide)) s ev then next (asciiEnv 2 (by decide)) s ev else none)
      emptyState).map (fun t => (t.everDeleted, revsOf t.remote homeID)) = some ([], [2, 3]) := by
    decide
  obtain ⟨t, ht, hvalue⟩ := Option.map_eq_some_iff.1 hrun
  obtain ⟨hdeleted, hrevs⟩ := Prod.ext_iff.1 hvalue
  have hreachable :
      ((exportMachine (asciiEnv 2 (by decide))).restrict fun s ev =>
        orderly (asciiEnv 2 (by decide)) s ev = true).Reachable t := by
    refine Machine.Reachable.foldlM ?_ (Machine.Reachable.of_init ⟨rfl, rfl, rfl, rfl, rfl⟩) ht
    intro s ev u hu
    split at hu
    · next horderly => exact ⟨horderly, hu⟩
    · cases hu
  refine ⟨t, (revisions_once _ hreachable).1 homeID ?_, hrevs⟩
  rw [show t.everDeleted = [] from hdeleted]
  exact List.not_mem_nil

/-- A revision that is saved while a run goes on is committed by the next run again, and a doc that
is created while a run goes on is given a file name that a later run refuses. -/
theorem revision_committed_twice :
    (∃ t, (exportMachine (asciiEnv 2 (by decide))).Reachable t ∧ t.everDeleted = [] ∧
      firstRev t.remote homeID = 1 ∧ (t.versions.any fun v => v.docID = homeID ∧ v.rev = 2) = true ∧
      (revsOf t.remote homeID).count 2 = 2) ∧
    ∃ t, (exportMachine (asciiEnv 1 (by decide))).Reachable t ∧ t.run = .badName := by
  constructor
  · have hrun : (savedWithin.foldlM
        (next (asciiEnv 2 (by decide))) emptyState).map (fun t => (t.everDeleted,
          firstRev t.remote homeID, t.versions.any fun v => v.docID = homeID ∧ v.rev = 2,
          (revsOf t.remote homeID).count 2)) = some ([], 1, true, 2) := by
      decide
    obtain ⟨t, ht, hvalue⟩ := Option.map_eq_some_iff.1 hrun
    simp only [Prod.mk.injEq] at hvalue
    have hinit : (exportMachine (asciiEnv 2 (by decide))).Reachable emptyState :=
      Machine.Reachable.of_init ⟨rfl, rfl, rfl, rfl, rfl⟩
    exact ⟨t, hinit.foldlM (fun _ _ _ h => h) ht, hvalue⟩
  · have hrun : (createdWithin.foldlM
        (next (asciiEnv 1 (by decide))) emptyState).map (fun t =>
          match t.run with
          | .badName => true
          | _ => false) = some true := by
      decide
    obtain ⟨t, ht, hvalue⟩ := Option.map_eq_some_iff.1 hrun
    have hinit : (exportMachine (asciiEnv 1 (by decide))).Reachable emptyState :=
      Machine.Reachable.of_init ⟨rfl, rfl, rfl, rfl, rfl⟩
    refine ⟨t, hinit.foldlM (fun _ _ _ h => h) ht, ?_⟩
    revert hvalue
    cases t.run <;> intro hvalue
    case badName => rfl
    all_goals exact absurd hvalue Bool.false_ne_true

end WiseLabz.DocExport
