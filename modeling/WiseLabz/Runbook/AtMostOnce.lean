/-
**At most one effect for each authorisation.**

An invocation of `perform` follows a start of its step that the store has accepted.  The goroutine
that made the start holds it until the invocation, and a crash loses it, so a history never has more
invocations than starts.  The starts in turn are paid for by the pending step or by a resume.

Main definitions:

* `Runbook.HistoriesOk` — the histories of all runs are in order;
* `Runbook.Entry.performsIn`, `Runbook.Entry.startsIn`, `Runbook.Goroutine.startedIn` — invocations,
  starts, and starts that still wait for their invocation;
* `Runbook.Attempts`, `Runbook.Backed` — invocations do not outnumber starts, now and at each entry.

Main results:

* `Runbook.Sys.step_cases` — what a step of the system does;
* `Runbook.at_most_once_per_authorization` — **a step is performed at most once for each
  authorisation**, in its turn, never from a start after the run was closed, and never again after
  an unknown outcome without a decision.
-/

import WiseLabz.Lib.History
import WiseLabz.Runbook.Histories
import WiseLabz.Runbook.Sequential

set_option relaxedAutoImplicit false
set_option autoImplicit false

namespace WiseLabz.Runbook

open Lib

/-! ### The histories of all runs -/

/-- A run without a history. -/
theorem historyOk_nil (r : RunbookRun) : HistoryOk r [] := by
  constructor <;> simp

/-- An invocation of `perform` changes nothing that the history owes. -/
theorem HistoryOk.performed {r : RunbookRun} {h : List Entry} (hh : HistoryOk r h)
    (stepId : Bytes) (startedAt : Option ℕ) : HistoryOk r (h ++ [.performed stepId startedAt]) where
  budget s hs := by simpa [List.countP_append, Entry.starts, Entry.resumesOn] using hh.budget s hs
  idle s hs hidle := by
    simpa [List.countP_append, Entry.starts, Entry.resumesOn] using hh.idle s hs hidle
  foreign id hid := by
    rw [List.countP_append, hh.foreign id hid]
    rfl
  revisions id state revision he := hh.revisions id state revision (by simpa using he)
  distinct id revision := by simpa [List.count_append] using hh.distinct id revision
  closed e he hcloses := by
    rcases List.mem_append.1 he with he | he
    · exact hh.closed e he hcloses
    · rw [List.mem_singleton.1 he] at hcloses
      cases hcloses
  open_starts := prior_concat.2 ⟨hh.open_starts, fun id hstart => by cases hstart⟩
  decided s hs hkind hdecided :=
    flag_append_eq_false (hh.decided s hs hkind hdecided) (by simp [Entry.unknowns])
  resent s hs hkind := prior_concat.2 ⟨hh.resent s hs hkind, fun hstart => by cases hstart⟩

/-- The histories of all runs are in order. -/
def HistoriesOk (db : Db) (history : Bytes → List Entry) : Prop :=
  ∀ id, (∀ r, db.run? id = some r → HistoryOk r (history id)) ∧
    (db.run? id = none → history id = [])

/-- The history of a run after a step of the system. -/
def extended (db db' : Db) (history : Bytes → List Entry) (runId : Bytes) (es : List Entry)
    (id : Bytes) : List Entry :=
  history id ++ (if id = runId then es else []) ++ changesOf db db' id

theorem Effect.historiesOk {db db' : Db} {history : Bytes → List Entry} {runId : Bytes}
    {es : List Entry} (h : Effect db runId es db') (hok : ∀ id, db.Ok id)
    (hh : HistoriesOk db history) : HistoriesOk db' (extended db db' history runId es) := by
  intro id
  have hchanges : ∀ r r', db.run? id = some r → db'.run? id = some r' →
      changesOf db db' id = changes r r' := by
    intro r r' hr hr'
    simp [changesOf, hr, hr']
  obtain ⟨hes, hsame⟩ | ⟨r, r', hr, hr', -, hmove⟩ | ⟨hnone, rfl, r, hr, -, -⟩ := h.run? id
  · have heq : extended db db' history runId es id = history id := by
      have hextra : (if id = runId then es else []) = [] := ite_eq_right_iff.2 hes
      rw [extended, hextra]
      cases hr : db.run? id <;> simp [changesOf, hsame, hr]
    rw [heq, hsame]
    exact hh id
  · refine ⟨?_, fun hnone => by rw [hr'] at hnone; cases hnone⟩
    rintro r'' hr''
    obtain rfl := Option.some.inj (hr'.symm.trans hr'')
    rw [extended, hchanges r r' hr hr', List.append_assoc]
    rcases hmove with ⟨rfl, hmove⟩ | ⟨hmove, rfl⟩
    · rw [if_pos rfl]
      exact hmove.historyOk (hok id r hr) ((hh id).1 r hr)
    · rw [ite_self]
      exact hmove.historyOk (hok id r hr) ((hh id).1 r hr)
  · have heq : extended db db' history runId [] id = [] := by
      simp [extended, changesOf, hnone, (hh id).2 hnone]
    rw [heq]
    refine ⟨fun r' _ => historyOk_nil r', fun hnone' => ?_⟩
    rfl

/-! ### Invocations and starts -/

/-- An invocation of `perform`, of a step and a start that `Q` holds of. -/
def Entry.performsIn (Q : Bytes → Option ℕ → Bool) : Entry → Bool
  | .performed id startedAt => Q id startedAt
  | _ => false

/-- A start that `Q` holds of. -/
def Entry.startsIn (Q : Bytes → Option ℕ → Bool) : Entry → Bool
  | .recorded id .running revision => Q id (some revision)
  | _ => false

/-- The goroutine has made a start that `Q` holds of, and is about to invoke `perform`. -/
def Goroutine.startedIn (runId : Bytes) (Q : Bytes → Option ℕ → Bool) (g : Goroutine) : Bool :=
  match g.pc with
  | .started _ step _ => g.runId = runId && Q step.id step.startedAt
  | _ => false

/-- The starts of a run that still wait for their invocation of `perform`. -/
def Sys.waiting (s : Sys) (runId : Bytes) (Q : Bytes → Option ℕ → Bool) : ℕ :=
  s.goroutines.countP (Goroutine.startedIn runId Q)

theorem startedIn_of_not_started {g : Goroutine}
    (h : ∀ run step last, g.pc ≠ .started run step last) (runId : Bytes)
    (Q : Bytes → Option ℕ → Bool) : g.startedIn runId Q = false := by
  unfold Goroutine.startedIn
  split
  · next hpc => exact absurd hpc (h _ _ _)
  · rfl

/-- One goroutine moves on. -/
theorem countP_startedIn_set {gs : List Goroutine} {i : ℕ} {g : Goroutine} (hg : gs[i]? = some g)
    (g' : Goroutine) (runId : Bytes) (Q : Bytes → Option ℕ → Bool) :
    (gs.set i g').countP (Goroutine.startedIn runId Q) + (if g.startedIn runId Q then 1 else 0) =
      gs.countP (Goroutine.startedIn runId Q) + (if g'.startedIn runId Q then 1 else 0) := by
  obtain ⟨hi, hgi⟩ := List.getElem?_eq_some_iff.1 hg
  rw [List.countP_set hi, hgi]
  by_cases hstarted : g.startedIn runId Q = true
  · have hpos : 0 < gs.countP (Goroutine.startedIn runId Q) :=
      List.countP_pos_iff.2 ⟨g, hgi ▸ List.getElem_mem hi, hstarted⟩
    rw [if_pos hstarted]
    omega
  · rw [if_neg hstarted]
    omega

/-- A goroutine that has moved on without a start. -/
theorem countP_startedIn_set_le {gs : List Goroutine} {i : ℕ} {g g' : Goroutine}
    (hg : gs[i]? = some g) (h : ∀ run step last, g'.pc ≠ .started run step last) (runId : Bytes)
    (Q : Bytes → Option ℕ → Bool) :
    (gs.set i g').countP (Goroutine.startedIn runId Q) ≤
      gs.countP (Goroutine.startedIn runId Q) := by
  have hcount := countP_startedIn_set hg g' runId Q
  rw [startedIn_of_not_started h runId Q] at hcount
  simp only [Bool.false_eq_true, if_false, Nat.add_zero] at hcount
  omega

/-- Requests start no step. -/
theorem Spawned.waiting {gs gs' : List Goroutine} (h : Spawned gs gs') (runId : Bytes)
    (Q : Bytes → Option ℕ → Bool) :
    gs'.countP (Goroutine.startedIn runId Q) ≤ gs.countP (Goroutine.startedIn runId Q) := by
  obtain rfl | ⟨runId', rfl⟩ | ⟨i, rfl⟩ := h
  · exact le_rfl
  · rw [List.countP_append, List.countP_singleton]
    exact le_rfl
  · have hsame : (gs.modify i fun g => { g with cancelled := true }).map
        (Goroutine.startedIn runId Q) = gs.map (Goroutine.startedIn runId Q) := by
      refine List.ext_getElem? fun j => ?_
      rw [List.getElem?_map, List.getElem?_map, List.getElem?_modify]
      cases gs[j]? with
      | none => rfl
      | some g =>
          simp only [Option.map_eq_map, Option.map_some]
          split <;> rfl
    have hcount := congrArg (List.countP id) hsame
    simpa [List.countP_map] using hcount.le

/-- Only `perform` leaves an invocation in the history. -/
theorem changes_performsIn (r r' : RunbookRun) (Q : Bytes → Option ℕ → Bool) {e : Entry}
    (he : e ∈ changes r r') : e.performsIn Q = false := by
  rw [changes, List.mem_append] at he
  rcases he with he | he
  · split at he
    · cases he
    · rw [List.mem_singleton.1 he]
      rfl
  · obtain ⟨l, hl, he⟩ := List.mem_flatten.1 he
    rw [← List.map_uncurry_zip_eq_zipWith] at hl
    obtain ⟨⟨s, s'⟩, -, rfl⟩ := List.mem_map.1 hl
    simp only [Function.uncurry, stepChange] at he
    split at he
    · cases he
    · rw [List.mem_singleton.1 he]
      rfl

theorem changesOf_performsIn (db db' : Db) (id : Bytes) (Q : Bytes → Option ℕ → Bool) {e : Entry}
    (he : e ∈ changesOf db db' id) : e.performsIn Q = false := by
  unfold changesOf at he
  split at he
  · exact changes_performsIn _ _ Q he
  · cases he

theorem Effect.performsIn {db db' : Db} {runId : Bytes} {es : List Entry}
    (h : Effect db runId es db') (Q : Bytes → Option ℕ → Bool) {e : Entry} (he : e ∈ es) :
    e.performsIn Q = false := by
  cases h with
  | quiet | all | create => cases he
  | move h =>
      obtain ⟨r, r', -, hmove, -⟩ := h
      obtain ⟨first, decision, rfl⟩ := hmove.extra he
      rfl

/-! ### A step of the system -/

/-- A step that writes the tables: what becomes of them and of the histories, and every new start
is recorded. -/
structure Writes (s t : Sys) : Prop where
  effect : ∃ runId es, Effect s.db runId es t.db ∧
    t.history = extended s.db t.db s.history runId es
  started : ∀ runId Q, t.waiting runId Q ≤
    s.waiting runId Q + (changesOf s.db t.db runId).countP (Entry.startsIn Q)

/-- A step in which a goroutine invokes `perform` for the step that it has started. -/
structure Performs (s t : Sys) (runId stepId : Bytes) (startedAt : Option ℕ) : Prop where
  db : t.db = s.db
  history : ∀ id, t.history id =
    s.history id ++ if id = runId then [.performed stepId startedAt] else []
  /-- The goroutine knows that it is the turn of the step. -/
  turn : ∃ r, s.db.run? runId = some r ∧ EarlierSucceeded r stepId
  started : ∀ id Q, t.waiting id Q + (if id = runId ∧ Q stepId startedAt = true then 1 else 0) =
    s.waiting id Q

/-- A step that leaves the tables and the histories. -/
theorem Writes.of_quiet {s t : Sys} (hdb : t.db = s.db) (hhistory : t.history = s.history)
    (hstarted : ∀ runId Q, t.waiting runId Q ≤ s.waiting runId Q) : Writes s t where
  effect := by
    refine ⟨[], [], hdb ▸ .quiet, ?_⟩
    rw [hhistory, hdb]
    funext id
    simp [extended]
  started runId Q := (hstarted runId Q).trans (Nat.le_add_right _ _)

/-- A step that writes the tables and leaves the goroutines. -/
theorem Writes.of_effect {s t : Sys} {runId : Bytes} {es : List Entry}
    (heffect : Effect s.db runId es t.db)
    (hhistory : t.history = extended s.db t.db s.history runId es)
    (hgoroutines : t.goroutines = s.goroutines) : Writes s t where
  effect := ⟨runId, es, heffect, hhistory⟩
  started id Q := by
    rw [Sys.waiting, hgoroutines]
    exact Nat.le_add_right _ _

/-- Only a goroutine that has started its step invokes `perform`. -/
theorem Pc.performed_cases {pc pc' : Pc} {done : Bool} {runId : Bytes} {c : Chance} {db db' : Db}
    (h : pc.next done runId c db = some (pc', db')) :
    (pc.performed = [] ∧ ∀ run step last, pc ≠ .started run step last) ∨
      ∃ run step last, pc = .started run step last ∧ pc' = .performing run step last ∧
        db' = db ∧ pc.performed = [.performed step.id step.startedAt] := by
  cases pc with
  | started run step last =>
      simp only [Pc.next, Option.some.injEq, Prod.mk.injEq] at h
      exact Or.inr ⟨run, step, last, rfl, h.1.symm, h.2.symm, rfl⟩
  | _ => exact Or.inl ⟨rfl, by simp⟩

/-- A goroutine goes on with what it has in hand. -/
theorem Sys.goroutineNext_cases {s : Sys} {i : ℕ} {g : Goroutine} {c : Chance} {pc' : Pc} {db' : Db}
    (h : SysOk s) (hg : s.goroutines[i]? = some g)
    (hnext : g.pc.next (s.ctxDone g) g.runId c s.db = some (pc', db')) {t : Sys}
    (ht : t = { s with goroutines := s.goroutines.set i { g with pc := pc' } }.commit db' g.runId
      g.pc.performed) :
    Writes s t ∨ ∃ stepId startedAt, Performs s t g.runId stepId startedAt := by
  have hpc := h.goroutines g (List.mem_of_getElem? hg)
  have hcount : ∀ runId Q, t.waiting runId Q + (if g.startedIn runId Q then 1 else 0) =
      s.waiting runId Q + (if ({ g with pc := pc' } : Goroutine).startedIn runId Q then 1 else 0) := by
    subst ht
    exact fun runId Q => countP_startedIn_set hg _ runId Q
  obtain ⟨hperformed, hpc₀⟩ | ⟨run, step, last, hstarted, rfl, rfl, hperformed⟩ :=
    Pc.performed_cases hnext
  · obtain ⟨heffect, -, hrecorded⟩ := Pc.next_effect (h.runs _) hpc hnext
    have hold : ∀ runId Q, g.startedIn runId Q = false := startedIn_of_not_started hpc₀
    refine Or.inl ⟨⟨g.runId, [], ?_, ?_⟩, fun runId Q => ?_⟩
    · rw [ht]
      exact heffect
    · rw [ht, hperformed]
      rfl
    · have := hcount runId Q
      rw [hold runId Q] at this
      simp only [Bool.false_eq_true, if_false, Nat.add_zero] at this
      rw [this]
      refine Nat.add_le_add_left ?_ _
      by_cases hnew : ({ g with pc := pc' } : Goroutine).startedIn runId Q = true
      · -- a new start is the one entry of the write
        rw [if_pos hnew]
        unfold Goroutine.startedIn at hnew
        split at hnew
        · next run step last hpc' =>
            obtain ⟨revision, hrevision, hchanges⟩ := hrecorded run step last hpc'
            simp only [Bool.and_eq_true, decide_eq_true_eq] at hnew
            rw [ht, ← hnew.1, Sys.commit_db, hchanges, List.countP_singleton, Entry.startsIn,
              ← hrevision, if_pos hnew.2]
        · cases hnew
      · rw [if_neg hnew]
        exact Nat.zero_le _
  · refine Or.inr ⟨step.id, step.startedAt, ?_, ?_, ?_, ?_⟩
    · rw [ht, Sys.commit_db]
    · intro id
      rw [ht, Sys.commit_history, hperformed, changesOf_self, List.append_nil]
    · rw [hstarted] at hpc
      exact hpc
    · intro runId Q
      have := hcount runId Q
      simp only [Goroutine.startedIn, hstarted, Bool.and_eq_true, decide_eq_true_eq,
        Bool.false_eq_true, if_false, Nat.add_zero] at this
      rw [← this]
      simp only [eq_comm]

/-- **What a step of the system does.** -/
theorem Sys.step_cases {s t : Sys} {a : Event} (h : SysOk s) (hs : s.step a = some t) :
    Writes s t ∨ ∃ runId stepId startedAt, Performs s t runId stepId startedAt := by
  cases a with
  | goroutine i c =>
      obtain ⟨g, hg, hcases⟩ := Sys.goroutineStep_cases hs
      obtain ⟨-, rfl⟩ | ⟨-, -, rfl⟩ | ⟨-, rfl⟩ | ⟨pc', db', hnext, ht⟩ := hcases
      · exact Or.inl (.of_quiet rfl rfl fun runId Q =>
          countP_startedIn_set_le hg (by simp) runId Q)
      · exact Or.inl (.of_quiet rfl rfl fun runId Q =>
          countP_startedIn_set_le hg (by simp) runId Q)
      · exact Or.inl (.of_quiet rfl rfl fun runId Q =>
          countP_startedIn_set_le hg (by simp) runId Q)
      · exact (Sys.goroutineNext_cases h hg hnext ht).imp_right fun hp => ⟨_, hp⟩
  | request q c =>
      obtain ⟨pc, hpc, ⟨pc', gs, -, hgs, rfl⟩ | ⟨result, hnext, rfl⟩⟩ := Sys.requestStep_cases hs
      · exact Or.inl (.of_quiet rfl rfl hgs.waiting)
      · obtain ⟨heffect, -⟩ :=
          RequestPc.next_effect h.runs (h.requests pc (List.mem_of_getElem? hpc)) hnext
        exact Or.inl (.of_effect heffect rfl rfl)
  | submit pc =>
      simp only [Sys.step] at hs
      split at hs
      · obtain rfl := Option.some.inj hs
        exact Or.inl (.of_quiet rfl rfl fun _ _ => le_rfl)
      · cases hs
  | expireOpen before clock io =>
      simp only [Sys.step] at hs
      split at hs
      · obtain rfl := Option.some.inj hs
        exact Or.inl (.of_effect (.all (expireOpenRunbookRuns_moves _ _ _)) rfl rfl)
      · cases hs
  | expireAwaiting before clock io =>
      simp only [Sys.step] at hs
      split at hs
      · obtain rfl := Option.some.inj hs
        exact Or.inl (.of_effect (.all (expireAwaitingApprovalRunbookRuns_moves _ _ _)) rfl rfl)
      · cases hs
  | stop | cancelBase =>
      obtain rfl := Option.some.inj hs
      exact Or.inl (.of_quiet rfl rfl fun _ _ => le_rfl)
  | crash =>
      obtain rfl := Option.some.inj hs
      exact Or.inl (.of_quiet rfl rfl fun _ _ => Nat.zero_le _)
  | recover clock io =>
      simp only [Sys.step] at hs
      split at hs
      · cases hs
      · split at hs <;> obtain rfl := Option.some.inj hs
        · exact Or.inl (.of_effect (.all (interruptRunningRunbookRuns_moves _ _)) rfl rfl)
        · exact Or.inl (.of_quiet rfl rfl fun _ _ => le_rfl)

/-! ### Invocations do not outnumber starts -/

/-- Each invocation of `perform` follows a start that no invocation before has used. -/
def Backed (h : List Entry) : Prop :=
  Prior (fun pre e => ∀ Q, e.performsIn Q = true →
    pre.countP (Entry.performsIn Q) < pre.countP (Entry.startsIn Q)) h

/-- **The invariant of the histories.** -/
structure Attempts (s : Sys) : Prop where
  histories : HistoriesOk s.db s.history
  /-- A start waits for its invocation, or has had it, or was lost in a crash. -/
  attempts : ∀ runId Q,
    (s.history runId).countP (Entry.performsIn Q) + s.waiting runId Q ≤
      (s.history runId).countP (Entry.startsIn Q)
  backed : ∀ runId, Backed (s.history runId)

/-- Entries other than invocations keep every invocation backed. -/
theorem Backed.append {h es : List Entry} (hh : Backed h)
    (hes : ∀ e ∈ es, ∀ Q, e.performsIn Q = false) : Backed (h ++ es) := by
  refine hh.append_of_forall fun e he pre Q hperforms => ?_
  rw [hes e he Q] at hperforms
  cases hperforms

theorem Writes.attempts {s t : Sys} (h : Writes s t) (hsys : SysOk s) (hs : Attempts s) :
    Attempts t := by
  obtain ⟨runId₀, es, heffect, hhistory⟩ := h.effect
  have hnew : ∀ runId, ∀ e ∈ (if runId = runId₀ then es else []) ++ changesOf s.db t.db runId,
      ∀ Q, e.performsIn Q = false := by
    intro runId e he Q
    rcases List.mem_append.1 he with he | he
    · split at he
      · exact heffect.performsIn Q he
      · cases he
    · exact changesOf_performsIn _ _ _ Q he
  refine ⟨?_, fun runId Q => ?_, fun runId => ?_⟩
  · rw [hhistory]
    exact heffect.historiesOk hsys.runs hs.histories
  · have hperforms : ((if runId = runId₀ then es else []) ++ changesOf s.db t.db runId).countP
        (Entry.performsIn Q) = 0 := List.countP_eq_zero.2 fun e he => by simp [hnew runId e he Q]
    have hold := hs.attempts runId Q
    have hstarted := h.started runId Q
    rw [hhistory, extended, List.append_assoc, List.countP_append, hperforms,
      ← List.append_assoc, List.countP_append, List.countP_append]
    omega
  · rw [hhistory, extended, List.append_assoc]
    exact (hs.backed runId).append (hnew runId)

theorem Performs.attempts {s t : Sys} {runId stepId : Bytes} {startedAt : Option ℕ}
    (h : Performs s t runId stepId startedAt) (hs : Attempts s) : Attempts t := by
  refine ⟨fun id => ?_, fun id Q => ?_, fun id => ?_⟩
  · rw [h.history, h.db]
    obtain ⟨hsome, hnone⟩ := hs.histories id
    refine ⟨fun r hr => ?_, fun hid => ?_⟩
    · split
      · exact (hsome r hr).performed _ _
      · simpa using hsome r hr
    · obtain ⟨r, hr, -⟩ := h.turn
      have hne : id ≠ runId := by
        rintro rfl
        rw [hr] at hid
        cases hid
      simpa [hne] using hnone hid
  · have hold := hs.attempts id Q
    have hstarted := h.started id Q
    rw [h.history]
    by_cases hid : id = runId
    · simp only [hid, if_true, true_and] at hold hstarted ⊢
      rw [List.countP_append, List.countP_append, List.countP_singleton, List.countP_singleton]
      cases hQ : Q stepId startedAt <;>
        simp only [hQ, Entry.performsIn, Entry.startsIn, Bool.false_eq_true, if_true, if_false]
          at hstarted ⊢ <;>
        omega
    · simp only [hid, if_false, false_and, List.append_nil, Nat.add_zero] at hstarted ⊢
      omega
  · rw [h.history]
    split
    · next hid =>
        subst hid
        refine prior_concat.2 ⟨hs.backed id, fun Q hQ => ?_⟩
        have hold := hs.attempts id Q
        have hstarted := h.started id Q
        rw [if_pos ⟨rfl, hQ⟩] at hstarted
        omega
    · simpa using hs.backed id

theorem attempts_reachable {s : Sys} (h : executor.Reachable s) : SysOk s ∧ Attempts s := by
  refine h.invariant (I := fun s => SysOk s ∧ Attempts s) ?_ ?_
  · intro s hinit
    refine ⟨sysOk_reachable (.of_init hinit), ?_⟩
    obtain ⟨-, hclaiming, -, -, hhistory⟩ := hinit
    refine ⟨fun id => ⟨fun r _ => ?_, fun _ => hhistory id⟩, fun id Q => ?_, fun id => ?_⟩
    · rw [hhistory]
      exact historyOk_nil r
    · have hnone : s.waiting id Q = 0 := List.countP_eq_zero.2 fun g hg => by
        simp [startedIn_of_not_started (g := g) (by simp [hclaiming g hg]) id Q]
      simp [hhistory, hnone]
    · rw [hhistory]
      exact prior_nil
  · rintro s a t ⟨hsys, hs⟩ hstep
    refine ⟨hsys.step hstep, ?_⟩
    obtain hwrites | ⟨runId, stepId, startedAt, hperforms⟩ := Sys.step_cases hsys hstep
    · exact hwrites.attempts hsys hs
    · exact hperforms.attempts hs

/-! ### At most once -/

theorem performsIn_step (stepId : Bytes) :
    Entry.performsIn (fun id _ => id = stepId) = Entry.performs stepId := by
  funext e
  cases e <;> rfl

theorem startsIn_step (stepId : Bytes) :
    Entry.startsIn (fun id _ => id = stepId) = Entry.starts stepId := by
  funext e
  cases e with
  | recorded id state revision => cases state <;> rfl
  | _ => rfl

/-- The start that an invocation follows is the only one of its revision, and unused. -/
theorem Backed.start {r : RunbookRun} {pre post : List Entry} {stepId : Bytes}
    {startedAt : Option ℕ} (hh : HistoryOk r (pre ++ .performed stepId startedAt :: post))
    (hbacked : Backed (pre ++ .performed stepId startedAt :: post)) :
    ∃ revision, startedAt = some revision ∧ .recorded stepId .running revision ∈ pre ∧
      .performed stepId startedAt ∉ pre := by
  have hlt := hbacked pre _ post rfl (fun id at' => id = stepId ∧ at' = startedAt)
    (by simp [Entry.performsIn])
  obtain ⟨e, he, hstart⟩ := List.countP_pos_iff.1 (Nat.zero_lt_of_lt hlt)
  unfold Entry.startsIn at hstart
  split at hstart
  · next id revision =>
      simp only [Bool.decide_and, Bool.and_eq_true, decide_eq_true_eq] at hstart
      obtain ⟨rfl, rfl⟩ := hstart
      refine ⟨revision, rfl, he, fun hused => ?_⟩
      have hused' : 0 < pre.countP (Entry.performsIn fun id' at' =>
          id' = id ∧ at' = some revision) :=
        List.countP_pos_iff.2 ⟨_, hused, by simp [Entry.performsIn]⟩
      have hcount : pre.countP (Entry.startsIn fun id' at' => id' = id ∧ at' = some revision) ≤
          pre.count (.recorded id .running revision) := by
        rw [List.count]
        refine List.countP_mono_left fun x _ hx => ?_
        unfold Entry.startsIn at hx
        split at hx
        · simpa using hx
        · cases hx
      have honce := hh.distinct id revision
      rw [List.count_append] at honce
      omega
  · cases hstart

/-- A start is paid for by the pending step or by a resume. -/
theorem HistoryOk.starts_le {r : RunbookRun} {h : List Entry} (hh : HistoryOk r h)
    (stepId : Bytes) :
    h.countP (Entry.starts stepId) ≤ h.countP (Entry.resumesOn stepId) + 1 := by
  by_cases hmem : ∃ s ∈ r.steps, s.id = stepId
  · obtain ⟨s, hs, rfl⟩ := hmem
    exact hh.budget s hs
  · push Not at hmem
    rw [hh.foreign stepId hmem]
    exact Nat.zero_le _

/-- A start after an unknown outcome follows a decision. -/
theorem HistoryOk.resent_between {r : RunbookRun} {pre mid post : List Entry}
    {s : RunbookRunStepRecord} {e e' : Entry} (hh : HistoryOk r (pre ++ e :: (mid ++ e' :: post)))
    (hs : s ∈ r.steps) (hkind : DecisionKind s) (he : e.unknowns s.id = true)
    (he' : e'.starts s.id = true) : ∃ x ∈ mid, x.resends s.id = true := by
  have hflag := hh.resent s hs hkind (pre ++ e :: mid) e' post (by simp) he'
  exact exists_clear_of_flag_eq_false hflag he

/-- **At most one effect for each authorisation.**  In every reachable state, for every run:

* a step has been performed at most once, and once more for each resume on it;
* `perform` is invoked only for a step whose earlier steps the store has as succeeded;
* each invocation follows a start of its own that the store accepted, before any cancel, expiry or
  rejection of the run;
* a connector action or config push recorded unknown is not performed by a later start unless the
  run was resumed in between with the decision to resend it. -/
theorem at_most_once_per_authorization {s : Sys} (h : executor.Reachable s) (runId : Bytes) :
    (∀ stepId, (s.history runId).countP (Entry.performs stepId) ≤
      1 + (s.history runId).countP (Entry.resumesOn stepId)) ∧
    (∀ a t, executor.step s a t → ∃ new, t.history runId = s.history runId ++ new ∧
      ∀ stepId startedAt, .performed stepId startedAt ∈ new →
        ∃ r, s.db.run? runId = some r ∧ ∃ pre x post, r.steps = pre ++ x :: post ∧
          x.id = stepId ∧ ∀ y ∈ pre, y.state = .succeeded) ∧
    (∀ pre stepId startedAt post,
      s.history runId = pre ++ .performed stepId startedAt :: post →
      ∃ revision before after, startedAt = some revision ∧
        pre = before ++ .recorded stepId .running revision :: after ∧
        (∀ e ∈ before, e.closes = false) ∧ .performed stepId startedAt ∉ pre) ∧
    (∀ r x, s.db.run? runId = some r → x ∈ r.steps →
      x.kind = .connectorAction ∨ x.kind = .configPush →
      ∀ pre unknownAt mid startedAt post,
        s.history runId = pre ++ .recorded x.id .unknown unknownAt ::
          (mid ++ .performed x.id startedAt :: post) →
        (∃ e ∈ mid, e.resends x.id = true) ∨
          ∃ revision, startedAt = some revision ∧ .recorded x.id .running revision ∈ pre) := by
  obtain ⟨hsys, hs⟩ := attempts_reachable h
  obtain ⟨hsome, hnone⟩ := hs.histories runId
  have hstart : ∀ pre stepId startedAt post,
      s.history runId = pre ++ .performed stepId startedAt :: post →
      ∃ r revision, HistoryOk r (s.history runId) ∧ startedAt = some revision ∧
        .recorded stepId .running revision ∈ pre ∧ .performed stepId startedAt ∉ pre := by
    intro pre stepId startedAt post hsplit
    cases hr : s.db.run? runId with
    | none => simp [hnone hr] at hsplit
    | some r =>
        have hbacked := hs.backed runId
        have hhistory := hsome r hr
        rw [hsplit] at hbacked hhistory
        obtain ⟨revision, hrevision⟩ := Backed.start hhistory hbacked
        exact ⟨r, revision, hsome r hr, hrevision⟩
  refine ⟨fun stepId => ?_, fun a t hstep => ?_, fun pre stepId startedAt post hsplit => ?_,
    fun r x hr hx hkind pre unknownAt mid startedAt post hsplit => ?_⟩
  · have hattempts := hs.attempts runId (fun id _ => id = stepId)
    rw [performsIn_step, startsIn_step] at hattempts
    cases hr : s.db.run? runId with
    | none => simp [hnone hr]
    | some r =>
        have hstarts := (hsome r hr).starts_le stepId
        omega
  · obtain hwrites | ⟨runId₀, stepId₀, startedAt₀, hperforms⟩ := Sys.step_cases hsys hstep
    · obtain ⟨runId₀, es, heffect, hhistory⟩ := hwrites.effect
      refine ⟨_, by rw [hhistory, extended, List.append_assoc], ?_⟩
      intro stepId startedAt hmem
      rcases List.mem_append.1 hmem with hmem | hmem
      · split at hmem
        · cases heffect.performsIn (fun _ _ => true) hmem
        · cases hmem
      · cases changesOf_performsIn _ _ _ (fun _ _ => true) hmem
    · refine ⟨_, hperforms.history runId, ?_⟩
      intro stepId startedAt hmem
      split at hmem
      · next hrun =>
          cases List.mem_singleton.1 hmem
          obtain ⟨r, hr, hearlier⟩ := hperforms.turn
          exact ⟨r, hrun ▸ hr, hearlier⟩
      · cases hmem
  · obtain ⟨r, revision, hh, hrevision, hmem, hunused⟩ := hstart pre stepId startedAt post hsplit
    obtain ⟨before, after, rfl⟩ := List.append_of_mem hmem
    refine ⟨revision, before, after, hrevision, rfl, ?_, hunused⟩
    have hsplit' : s.history runId = before ++ .recorded stepId .running revision ::
        (after ++ .performed stepId startedAt :: post) := by
      rw [hsplit]
      simp
    exact hh.open_starts before _ _ hsplit' stepId (by simp [Entry.starts])
  · have hsplit' : s.history runId = (pre ++ .recorded x.id .unknown unknownAt :: mid) ++
        .performed x.id startedAt :: post := by
      rw [hsplit]
      simp
    obtain ⟨-, revision, -, hrevision, hmem, -⟩ := hstart _ _ _ _ hsplit'
    rcases List.mem_append.1 hmem with hmem | hmem
    · exact Or.inr ⟨revision, hrevision, hmem⟩
    · rcases List.mem_cons.1 hmem with heq | hmem
      · cases heq
      · -- the start came after the step was recorded unknown
        obtain ⟨mid₁, mid₂, rfl⟩ := List.append_of_mem hmem
        have hh := hsome r hr
        rw [hsplit, List.append_assoc, List.cons_append] at hh
        obtain ⟨e, he, hresends⟩ :=
          hh.resent_between hx hkind (by simp [Entry.unknowns]) (by simp [Entry.starts])
        exact Or.inl ⟨e, by simp [he], hresends⟩

theorem at_most_once_per_authorization_sample : ∃ s, sampleSys = some s ∧
    .performed [4] (some 8) ∈ s.history [3] ∧
    (s.history [3]).countP (Entry.performs [4]) ≤ 1 ∧ ∃ pre post, s.history [3] =
      pre ++ .recorded [4] .running 8 :: post := by
  have hentries : (sampleSys.map fun s => s.history [3]) = some
      [.recorded [4] .running 8, .performed [4] (some 8), .recorded [4] .succeeded 9,
        .moved .waitingManual 10, .recorded [5] .waiting 10] := by
    decide
  obtain ⟨s, hs, hhistory⟩ := Option.map_eq_some_iff.1 hentries
  obtain ⟨hcount, -, hstart, -⟩ := at_most_once_per_authorization (sampleSys_reachable hs) [3]
  have hperforms := hcount [4]
  have hresumes : (s.history [3]).countP (Entry.resumesOn [4]) = 0 := by
    rw [hhistory]
    decide
  rw [hresumes] at hperforms
  obtain ⟨pre, post, hsplit⟩ := List.append_of_mem
    (show .performed [4] (some 8) ∈ s.history [3] by simp [hhistory])
  obtain ⟨revision, before, after, hrevision, rfl, -, -⟩ := hstart _ _ _ _ hsplit
  obtain rfl := Option.some.inj hrevision
  refine ⟨s, hs, by simp [hhistory], hperforms, before,
    after ++ .performed [4] (some 8) :: post, ?_⟩
  rw [hsplit, List.append_assoc, List.cons_append]

end WiseLabz.Runbook
