/-
**Open doc changes over runs of proposals and decisions.**

A doc change is raised for a pattern: a doc, a type, and possibly a block.  The code looks up the
latest change of the pattern by the second it was detected in and, within a second, by its random
id, and compares the new proposal with that one.  This module follows the changes of one pattern
through any run of proposals, resolutions and status updates.

Main definitions:

* `Doc.changeMachine` — **the changes of one pattern**;
* `Doc.openChanges` — the changes of a pattern that are open;
* `Doc.RaiseKept` — what a proposal should leave of its pattern;
* `Doc.LatestAnswers` — the change looked up answers as the one created last.

Main results:

* `Doc.OpenOnlyLast.step` — only the change created last can be open;
* `Doc.raiseKept_iff` — what one proposal leaves;
* `Doc.one_open_change_iff` — **when at most one change of a pattern is open**, and repeated
  proposals are not raised;
* `Doc.two_open_changes` — a run that leaves two open.
-/

import WiseLabz.Doc.Engine

set_option relaxedAutoImplicit false
set_option autoImplicit false

namespace WiseLabz.Doc

open Lib Store

/-! ### The machine -/

/-- What happens to changes. -/
inductive ChangeEvent
  | raise (d : DocRecord) (changeType : Bytes) (diff : ChangeDiff) (id now : ℕ)
  | resolve (c : ChangeRecord) (action : ResolveAction) (userId : Bytes) (now : ℕ)
  | setStatus (id : ℕ) (status : ChangeStatus)

/-- **The changes of the pattern `p`**, of which there are none at first.  Proposals for any pattern
are raised under fresh ids, a resolution is of a change as it was read at some time, and a user only
moves a change out of `new`. -/
def changeMachine (p : Bytes) : Machine Db ChangeEvent where
  init db := changesOf db p = []
  step db ev db' :=
    match ev with
    | .raise d changeType diff id now =>
        (∀ c ∈ db.changes, c.id ≠ id) ∧ db' = raiseDocChange db d changeType diff id now
    | .resolve c action userId now => resolveChange db c action userId now = .ok db'
    | .setStatus id status => status ≠ .new ∧ db' = updateChangeStatus db id status

/-- The open changes of a pattern. -/
def openChanges (db : Db) (p : Bytes) : List ChangeRecord :=
  (changesOf db p).filter fun c => c.status = .new

/-- The generated hash of a change's proposal. -/
def hashOf (c : ChangeRecord) : Option Bytes := c.diff.map (·.genHash)

/-- What a proposal should leave of its pattern: nothing new when the change created last carries
it, and otherwise one open change, which carries it. -/
def RaiseKept (p : Bytes) (db : Db) (ev : ChangeEvent) (db' : Db) : Prop :=
  match ev with
  | .raise d changeType diff _ _ =>
      docPattern changeType d.id diff.key = p →
        if (changesOf db p).getLast?.bind hashOf = some diff.genHash then db'.changes = db.changes
        else ∃ c, openChanges db' p = [c] ∧ c.diff = some { diff with docId := d.id }
  | _ => True

/-- **The change looked up answers as the one created last**: both carry the proposal or neither
does, and in the second case the one created last is not open, unless it is the one looked up. -/
def LatestAnswers (p : Bytes) (db : Db) (ev : ChangeEvent) : Prop :=
  match ev with
  | .raise d changeType diff _ _ =>
      docPattern changeType d.id diff.key = p →
        ∀ latest last, getLatestChangeByPattern db p = some latest →
          (changesOf db p).getLast? = some last →
          (hashOf latest = some diff.genHash ↔ hashOf last = some diff.genHash) ∧
            (latest = last ∨ hashOf last = some diff.genHash ∨ last.status ≠ .new)
  | _ => True

/-! ### What the events write -/

/-- The row that a proposal creates. -/
def raisedRow (d : DocRecord) (changeType : Bytes) (diff : ChangeDiff) (id now : ℕ) :
    ChangeRecord where
  id := id
  serviceId := d.serviceId
  changeType := changeType
  diff := some { diff with docId := d.id }
  status := .new
  detectedAt := now
  affectedDocIds := [d.id]
  patternId := docPattern changeType d.id diff.key

/-- A change under another status. -/
def withStatus (id : ℕ) (status : ChangeStatus) (c : ChangeRecord) : ChangeRecord :=
  if c.id = id then { c with status := status } else c

@[simp] theorem withStatus_patternId (id : ℕ) (status : ChangeStatus) (c : ChangeRecord) :
    (withStatus id status c).patternId = c.patternId := by
  unfold withStatus
  split <;> rfl

/-- Moving changes out of `new` opens none. -/
theorem withStatus_status {id : ℕ} {status : ChangeStatus} (hs : status ≠ .new) {c : ChangeRecord}
    (hc : c.status ≠ .new) : (withStatus id status c).status ≠ .new := by
  unfold withStatus
  split
  · exact hs
  · exact hc

theorem changesOf_updateChangeStatus (db : Db) (p : Bytes) (id : ℕ) (status : ChangeStatus) :
    changesOf (updateChangeStatus db id status) p = (changesOf db p).map (withStatus id status) := by
  simp only [changesOf, updateChangeStatus]
  induction db.changes with
  | nil => rfl
  | cons c cs ih =>
      rw [List.map_cons, List.filter_cons, List.filter_cons, ih]
      have hp := withStatus_patternId id status c
      rw [withStatus] at hp
      rw [hp]
      split
      · rw [List.map_cons, withStatus]
      · rfl

theorem changesOf_createChange (db : Db) (p : Bytes) (c : ChangeRecord) :
    changesOf (createChange db c) p =
      changesOf db p ++ if c.patternId = p then [c] else [] := by
  by_cases h : c.patternId = p <;> simp [changesOf, createChange, h]

/-- The latest change is one of the pattern's. -/
theorem mem_of_getLatest {db : Db} {p : Bytes} {c : ChangeRecord}
    (h : getLatestChangeByPattern db p = some c) : c ∈ changesOf db p := by
  rw [getLatestChangeByPattern] at h
  exact (List.mem_insertionSort _).1 (List.mem_of_head? h)

/-- There is a latest change when there is one at all. -/
theorem getLatest_eq_none {db : Db} {p : Bytes} :
    getLatestChangeByPattern db p = none ↔ changesOf db p = [] := by
  rw [getLatestChangeByPattern, List.head?_eq_none_iff, ← List.length_eq_zero_iff,
    List.length_insertionSort, List.length_eq_zero_iff]

/-- **What a proposal writes.** -/
theorem raiseDocChange_eq (db : Db) (d : DocRecord) (changeType : Bytes) (diff : ChangeDiff)
    (id now : ℕ) :
    raiseDocChange db d changeType diff id now =
      match getLatestChangeByPattern db (docPattern changeType d.id diff.key) with
      | none => createChange db (raisedRow d changeType diff id now)
      | some latest =>
          if hashOf latest = some diff.genHash then db
          else if latest.status = .new then
            createChange (updateChangeStatus db latest.id .dismissed)
              (raisedRow d changeType diff id now)
          else createChange db (raisedRow d changeType diff id now) := rfl

/-- The content writers leave the changes. -/
theorem updateDocWithVersion_changes {db db' : Db} {id content author trigger : Bytes}
    {expectedVersion : Option ℕ} {now rev : ℕ}
    (h : updateDocWithVersion db id content expectedVersion author trigger now = .ok (db', rev)) :
    db'.changes = db.changes := by
  obtain ⟨db₁, h₁, h₂⟩ := updateDocWithVersion_eq_ok.1 h
  obtain ⟨-, -, rfl⟩ := createDocVersion_eq_ok.1 h₂
  obtain ⟨-, -, -, rfl⟩ := updateDocContent_eq_ok.1 h₁
  rfl

theorem applyGeneratedRender_changes {db db' : Db} {id : Bytes} {r : GeneratedRender} {now rev : ℕ}
    (h : applyGeneratedRender db id r now = .ok (db', rev)) : db'.changes = db.changes := by
  obtain ⟨db₁, db₂, h₁, h₂, rfl⟩ := applyGeneratedRender_eq_ok.1 h
  obtain ⟨-, -, rfl⟩ := createDocVersion_eq_ok.1 h₂
  obtain ⟨-, -, -, rfl⟩ := updateDocContent_eq_ok.1 h₁
  rfl

/-- A write that returns no error, seen through the engine's error type. -/
theorem ofStore_map_eq_ok {x : Except StoreError (Db × ℕ)} {db : Db}
    (h : (ofStore x).map (·.1) = .ok db) : ∃ rev, x = .ok (db, rev) := by
  cases x with
  | error e => simp [ofStore, Except.map] at h
  | ok q =>
      obtain ⟨db', rev⟩ := q
      simp only [ofStore, Except.map, Except.ok.injEq] at h
      exact ⟨rev, by rw [h]⟩

/-- **A resolution acknowledges its change** and writes no other change. -/
theorem resolveChange_changes {db db' : Db} {c : ChangeRecord} {action : ResolveAction}
    {userId : Bytes} {now : ℕ} (h : resolveChange db c action userId now = .ok db') :
    ∃ db₁ : Db, db₁.changes = db.changes ∧ db' = updateChangeStatus db₁ c.id .acknowledged := by
  unfold resolveChange at h
  cases hdiff : c.diff with
  | none => simp [hdiff] at h
  | some diff =>
      simp only [hdiff, ite_error_eq_ok] at h
      obtain ⟨-, h⟩ := h
      cases hd : getDoc db diff.docId with
      | none => simp [hd] at h
      | some d =>
          simp only [hd] at h
          obtain ⟨db₁, hw, hret⟩ := bind_eq_ok.1 h
          rw [pure_eq_ok] at hret
          refine ⟨db₁, ?_, hret.symm⟩
          split at hw
          · -- an adoption
            cases action with
            | keep => rw [Except.ok.inj hw]
            | accept =>
                obtain ⟨rev, hw⟩ := ofStore_map_eq_ok hw
                exact applyGeneratedRender_changes hw
          · -- a conflict in a block
            split at hw
            · simp at hw
            · obtain ⟨rev, hw⟩ := ofStore_map_eq_ok hw
              exact updateDocWithVersion_changes hw
            · obtain ⟨rev, hw⟩ := ofStore_map_eq_ok hw
              exact updateDocWithVersion_changes hw

/-! ### Only the change created last can be open -/

/-- **Only the change created last can be open.** -/
def OpenOnlyLast (p : Bytes) (db : Db) : Prop :=
  ∀ c ∈ (changesOf db p).dropLast, c.status ≠ .new

/-- The open changes are then the one created last, if it is open. -/
theorem OpenOnlyLast.openChanges_eq {p : Bytes} {db : Db} (h : OpenOnlyLast p db) :
    openChanges db p = ((changesOf db p).getLast?.filter fun c => c.status = .new).toList := by
  unfold OpenOnlyLast at h
  rw [openChanges]
  rcases List.eq_nil_or_concat (changesOf db p) with hnil | ⟨cs, c, hcs⟩
  · simp [hnil]
  · rw [List.concat_eq_append] at hcs
    rw [hcs, List.dropLast_concat] at h
    have hnone : cs.filter (fun c => c.status = .new) = [] := by
      rw [List.filter_eq_nil_iff]
      intro c hc
      simpa using h c hc
    rw [hcs, List.filter_append, hnone, List.getLast?_concat, List.nil_append]
    by_cases hc : c.status = .new <;> simp [Option.filter, hc]

/-- At most one change is open. -/
theorem OpenOnlyLast.length_le {p : Bytes} {db : Db} (h : OpenOnlyLast p db) :
    (openChanges db p).length ≤ 1 := by
  rw [h.openChanges_eq]
  cases (changesOf db p).getLast?.filter fun c => c.status = .new <;> simp

/-- An open change is the one created last. -/
theorem OpenOnlyLast.getLast_of_open {p : Bytes} {db : Db} (h : OpenOnlyLast p db)
    {c : ChangeRecord} (hc : c ∈ changesOf db p) (hn : c.status = .new) :
    (changesOf db p).getLast? = some c := by
  have hopen : c ∈ openChanges db p := List.mem_filter.2 ⟨hc, by simpa using hn⟩
  rw [h.openChanges_eq, Option.mem_toList, Option.filter_eq_some_iff] at hopen
  exact hopen.1

/-- Moving changes out of `new` keeps the invariant. -/
theorem OpenOnlyLast.updateChangeStatus {p : Bytes} {db : Db} (h : OpenOnlyLast p db) {id : ℕ}
    {status : ChangeStatus} (hs : status ≠ .new) :
    OpenOnlyLast p (updateChangeStatus db id status) := by
  intro c hc
  rw [changesOf_updateChangeStatus, ← List.map_dropLast, List.mem_map] at hc
  obtain ⟨c₀, hc₀, rfl⟩ := hc
  exact withStatus_status hs (h c₀ hc₀)

/-- A row of another pattern keeps the invariant. -/
theorem OpenOnlyLast.createChange_of_ne {p : Bytes} {db : Db} (h : OpenOnlyLast p db)
    {c : ChangeRecord} (hne : c.patternId ≠ p) : OpenOnlyLast p (createChange db c) := by
  rw [OpenOnlyLast, changesOf_createChange, if_neg hne, List.append_nil]
  exact h

/-- A row of the pattern keeps the invariant when no earlier one is open. -/
theorem OpenOnlyLast.createChange {p : Bytes} {db : Db} (h : openChanges db p = [])
    {c : ChangeRecord} (hp : c.patternId = p) : OpenOnlyLast p (createChange db c) := by
  rw [OpenOnlyLast, changesOf_createChange, if_pos hp, List.dropLast_concat]
  intro c' hc'
  rw [openChanges, List.filter_eq_nil_iff] at h
  simpa using h c' hc'

/-- The open changes after a row of the pattern. -/
theorem openChanges_createChange {p : Bytes} {db : Db} {c : ChangeRecord} (hp : c.patternId = p)
    (hn : c.status = .new) : openChanges (createChange db c) p = openChanges db p ++ [c] := by
  rw [openChanges, changesOf_createChange, if_pos hp, List.filter_append, openChanges]
  simp [hn]

/-- Once the change created last is dismissed, none is open. -/
theorem OpenOnlyLast.dismissed {p : Bytes} {db : Db} (h : OpenOnlyLast p db) {c : ChangeRecord}
    (hlast : (changesOf db p).getLast? = some c) :
    openChanges (Store.updateChangeStatus db c.id .dismissed) p = [] := by
  have h' : OpenOnlyLast p (Store.updateChangeStatus db c.id .dismissed) :=
    h.updateChangeStatus (by simp)
  rw [h'.openChanges_eq, changesOf_updateChangeStatus, List.getLast?_map, hlast]
  simp [withStatus]

/-! ### One proposal -/

/-- A proposal for another pattern keeps the invariant. -/
theorem OpenOnlyLast.raise_of_ne {p : Bytes} {db : Db} (h : OpenOnlyLast p db) {d : DocRecord}
    {changeType : Bytes} {diff : ChangeDiff} (hne : docPattern changeType d.id diff.key ≠ p)
    (id now : ℕ) : OpenOnlyLast p (raiseDocChange db d changeType diff id now) := by
  rw [raiseDocChange_eq]
  split
  · exact h.createChange_of_ne hne
  · split
    · exact h
    · split
      · exact (h.updateChangeStatus (by simp)).createChange_of_ne hne
      · exact h.createChange_of_ne hne

/-- After a row of the pattern, where no earlier change is open, the row is the open change. -/
theorem exists_openChanges_createChange {p : Bytes} {db : Db} (h : openChanges db p = [])
    {d : DocRecord} {changeType : Bytes} {diff : ChangeDiff} {id now : ℕ}
    (hp : docPattern changeType d.id diff.key = p) :
    ∃ c, openChanges (createChange db (raisedRow d changeType diff id now)) p = [c] ∧
      c.diff = some { diff with docId := d.id } := by
  refine ⟨raisedRow d changeType diff id now, ?_, rfl⟩
  rw [openChanges_createChange (by exact hp) rfl, h, List.nil_append]

/-- The condition, on the change looked up and the one created last. -/
theorem latestAnswers_iff {p : Bytes} {db : Db} {d : DocRecord} {changeType : Bytes}
    {diff : ChangeDiff} {id now : ℕ} {latest last : ChangeRecord}
    (hp : docPattern changeType d.id diff.key = p)
    (hl : getLatestChangeByPattern db p = some latest)
    (hlast : (changesOf db p).getLast? = some last) :
    LatestAnswers p db (.raise d changeType diff id now) ↔
      (hashOf latest = some diff.genHash ↔ hashOf last = some diff.genHash) ∧
        (latest = last ∨ hashOf last = some diff.genHash ∨ last.status ≠ .new) := by
  constructor
  · intro h
    exact h hp latest last hl hlast
  · intro h _ latest' last' hl' hlast'
    obtain rfl := Option.some.inj (hl.symm.trans hl')
    obtain rfl := Option.some.inj (hlast.symm.trans hlast')
    exact h

/-- **What one proposal leaves.**  When only the change created last can be open, a proposal leaves
what it should exactly when the change looked up answers as the one created last; and then only the
change created last can be open afterwards. -/
theorem raiseKept_iff {p : Bytes} {db : Db} (h : OpenOnlyLast p db) (d : DocRecord)
    (changeType : Bytes) (diff : ChangeDiff) (id now : ℕ) :
    (RaiseKept p db (.raise d changeType diff id now)
        (raiseDocChange db d changeType diff id now) ↔
      LatestAnswers p db (.raise d changeType diff id now)) ∧
    (LatestAnswers p db (.raise d changeType diff id now) →
      OpenOnlyLast p (raiseDocChange db d changeType diff id now)) := by
  by_cases hp : docPattern changeType d.id diff.key = p
  swap
  · simp only [RaiseKept, LatestAnswers, hp, false_imp_iff, true_imp_iff, true_and]
    exact h.raise_of_ne hp id now
  have hrow : ∀ db₁ : Db, openChanges db₁ p = [] →
      OpenOnlyLast p (createChange db₁ (raisedRow d changeType diff id now)) :=
    fun db₁ hnil => OpenOnlyLast.createChange hnil hp
  simp only [RaiseKept, hp, true_imp_iff]
  rw [raiseDocChange_eq, hp]
  cases hl : getLatestChangeByPattern db p with
  | none =>
      -- the first proposal of the pattern
      have hnil := getLatest_eq_none.1 hl
      have hopen : openChanges db p = [] := by rw [openChanges, hnil, List.filter_nil]
      have hanswer : LatestAnswers p db (.raise d changeType diff id now) := by
        intro _ latest last hlatest
        simp [hl] at hlatest
      refine ⟨?_, fun _ => hrow db hopen⟩
      simpa [hnil, hanswer] using exists_openChanges_createChange hopen hp
  | some latest =>
      have hmem := mem_of_getLatest hl
      obtain ⟨last, hlast⟩ : ∃ last, (changesOf db p).getLast? = some last := by
        exact ⟨_, List.getLast?_eq_getLast_of_ne_nil (List.ne_nil_of_mem hmem)⟩
      rw [latestAnswers_iff hp hl hlast, hlast, Option.bind_some]
      dsimp only
      by_cases hcarry : hashOf latest = some diff.genHash
      · -- nothing is written
        rw [if_pos hcarry]
        refine ⟨?_, fun _ => h⟩
        simp only [hcarry, true_iff]
        split
        · rename_i hsame
          simp [hsame]
        · rename_i hdiff
          simp only [hdiff, false_and, iff_false]
          rintro ⟨c, hc, hcd⟩
          -- the one open change is the one created last, which does not carry the proposal
          have hmem' : c ∈ openChanges db p := by simp [hc]
          obtain ⟨hcm, hcn⟩ := List.mem_filter.1 hmem'
          obtain rfl : last = c := Option.some.inj
            (hlast.symm.trans (h.getLast_of_open hcm (by simpa using hcn)))
          exact hdiff (by rw [hashOf, hcd]; rfl)
      · rw [if_neg hcarry]
        simp only [hcarry, false_iff]
        by_cases hopen : latest.status = .new
        · -- the change looked up is open, so it is the one created last
          rw [if_pos hopen]
          obtain rfl : last = latest :=
            Option.some.inj (hlast.symm.trans (h.getLast_of_open hmem hopen))
          have hnil := h.dismissed hlast
          refine ⟨?_, fun _ => hrow _ hnil⟩
          rw [if_neg hcarry]
          simpa [hcarry] using exists_openChanges_createChange hnil hp
        · rw [if_neg hopen]
          by_cases hlopen : last.status = .new
          · -- a second change is left open
            have hne : latest ≠ last := fun he => hopen (he ▸ hlopen)
            have hmemLast : last ∈ openChanges db p :=
              List.mem_filter.2 ⟨List.mem_of_getLast? hlast, by simpa using hlopen⟩
            have hfalse : ¬ (¬ hashOf last = some diff.genHash ∧
                (latest = last ∨ hashOf last = some diff.genHash ∨ last.status ≠ .new)) := by
              rintro ⟨hd, he | hd' | hn⟩
              · exact hne he
              · exact hd hd'
              · exact hn hlopen
            refine ⟨?_, fun hl => (hfalse hl).elim⟩
            simp only [hfalse, iff_false]
            split
            · simp [createChange]
            · rintro ⟨c, hc, -⟩
              rw [openChanges_createChange (by exact hp) rfl] at hc
              have hlen := congrArg List.length hc
              have := List.length_pos_of_mem hmemLast
              simp at hlen
              simp [hlen] at this
          · have hnil : openChanges db p = [] := by
              rw [h.openChanges_eq, hlast]
              simp [Option.filter, hlopen]
            refine ⟨?_, fun _ => hrow db hnil⟩
            split
            · rename_i hsame
              simp [createChange, hsame]
            · rename_i hdiff
              simpa [hdiff, hlopen] using exists_openChanges_createChange hnil hp

/-! ### Runs -/

/-- Steps whose change looked up answers as the one created last keep the invariant. -/
theorem OpenOnlyLast.step {p : Bytes} {db db' : Db} {ev : ChangeEvent} (h : OpenOnlyLast p db)
    (hs : (changeMachine p).step db ev db') (ha : LatestAnswers p db ev) : OpenOnlyLast p db' := by
  cases ev with
  | raise d changeType diff id now =>
      obtain ⟨-, rfl⟩ := hs
      exact (raiseKept_iff h d changeType diff id now).2 ha
  | resolve c action userId now =>
      obtain ⟨db₁, hc, rfl⟩ := resolveChange_changes hs
      have h₁ : OpenOnlyLast p db₁ := by rwa [OpenOnlyLast, changesOf, hc]
      exact h₁.updateChangeStatus (by simp)
  | setStatus id status =>
      obtain ⟨hn, rfl⟩ := hs
      exact h.updateChangeStatus hn

/-- **When at most one change of a pattern is open.**  Along any run of proposals, resolutions and
status updates, every state has at most one open change of the pattern and every proposal leaves
what it should, exactly when at each proposal the change looked up answers as the one created
last. -/
theorem one_open_change_iff {p : Bytes} {db : Db} {evs : List ChangeEvent}
    (h : (changeMachine p).init db) :
    Machine.Along (changeMachine p) db evs
        (fun db ev db' => (openChanges db' p).length ≤ 1 ∧ RaiseKept p db ev db') ↔
      Machine.Along (changeMachine p) db evs fun db ev _ => LatestAnswers p db ev := by
  have hinit : OpenOnlyLast p db := by
    intro c hc
    rw [show changesOf db p = [] from h] at hc
    simp at hc
  refine Machine.along_iff (I := OpenOnlyLast p) ?_ (fun _ _ _ => OpenOnlyLast.step) hinit
  intro db ev db' hI hs
  have hkept : RaiseKept p db ev db' ↔ LatestAnswers p db ev := by
    cases ev with
    | raise d changeType diff id now =>
        obtain ⟨-, rfl⟩ := hs
        exact (raiseKept_iff hI d changeType diff id now).1
    | resolve c action userId now => exact Iff.rfl
    | setStatus id status => exact Iff.rfl
  rw [hkept, and_iff_right_iff_imp]
  intro ha
  exact (hI.step hs ha).length_le

/-! ### Proposals within one second -/

/-- A proposal for the section `b` of a doc. -/
def sectionDiff (hash : Bytes) : ChangeDiff where
  docId := bytes "d"
  key := bytes "b"
  human := bytes "note"
  generated := bytes "gen"
  genHash := hash

/-- Raising it. -/
def sectionRaise (hash : Bytes) (id now : ℕ) : ChangeEvent :=
  .raise restoredDoc changeTypeDocConflict (sectionDiff hash) id now

/-- Its pattern. -/
def sectionPattern : Bytes := docPattern changeTypeDocConflict (bytes "d") (bytes "b")

/-- The change that it creates. -/
def sectionRow (hash : Bytes) (id now : ℕ) : ChangeRecord :=
  raisedRow restoredDoc changeTypeDocConflict (sectionDiff hash) id now

/-- The tables with changes alone. -/
def changesDb (cs : List ChangeRecord) : Db := ⟨[], [], [], cs⟩

/-- Two proposals in different seconds. -/
theorem one_open_change_sample :
    Machine.Along (changeMachine sectionPattern) (changesDb [])
      [sectionRaise (bytes "h1") 5 0, sectionRaise (bytes "h2") 3 1] fun db ev db' =>
        (openChanges db' sectionPattern).length ≤ 1 ∧ RaiseKept sectionPattern db ev db' := by
  have hinit : (changeMachine sectionPattern).init (changesDb []) := rfl
  refine (one_open_change_iff hinit).2 (Machine.along_cons.2 ?_)
  rintro _ ⟨-, rfl⟩
  refine ⟨?_, Machine.along_cons.2 ?_⟩
  · intro _ latest last hlatest
    have hnone : getLatestChangeByPattern (changesDb []) sectionPattern = none := rfl
    rw [hnone] at hlatest
    simp at hlatest
  rintro _ ⟨-, rfl⟩
  refine ⟨?_, Machine.along_nil⟩
  intro _ latest last hlatest hlast
  obtain rfl : sectionRow (bytes "h1") 5 0 = latest := Option.some.inj hlatest
  obtain rfl : sectionRow (bytes "h1") 5 0 = last := Option.some.inj hlast
  exact ⟨Iff.rfl, Or.inl rfl⟩

/-- **Three proposals within one second that leave two changes open**: the second one's id sorts
before the first one's, so the third finds the first, which is dismissed, and leaves the second
open. -/
theorem two_open_changes :
    ¬ ∀ (p : Bytes) (db db' : Db) (evs : List ChangeEvent), (changeMachine p).init db →
      Machine.Run (changeMachine p) db evs db' → (openChanges db' p).length ≤ 1 := by
  intro h
  have h₁ : (changeMachine sectionPattern).step (changesDb []) (sectionRaise (bytes "h1") 5 0)
      (changesDb [sectionRow (bytes "h1") 5 0]) := ⟨by simp [changesDb], rfl⟩
  have h₂ : (changeMachine sectionPattern).step (changesDb [sectionRow (bytes "h1") 5 0])
      (sectionRaise (bytes "h2") 3 0)
      (changesDb [{ sectionRow (bytes "h1") 5 0 with status := .dismissed },
        sectionRow (bytes "h2") 3 0]) := ⟨by decide, rfl⟩
  have h₃ : (changeMachine sectionPattern).step
      (changesDb [{ sectionRow (bytes "h1") 5 0 with status := .dismissed },
        sectionRow (bytes "h2") 3 0]) (sectionRaise (bytes "h3") 1 0)
      (changesDb [{ sectionRow (bytes "h1") 5 0 with status := .dismissed },
        sectionRow (bytes "h2") 3 0, sectionRow (bytes "h3") 1 0]) := ⟨by decide, rfl⟩
  have hinit : (changeMachine sectionPattern).init (changesDb []) := rfl
  have hlen := h _ _ _ _ hinit (((Machine.Run.single h₁).snoc h₂).snoc h₃)
  revert hlen
  decide

end WiseLabz.Doc
