/-
**The history of a run.**

The history of a run tells when its steps were started, when `perform` was invoked for them, which
resumes found which step first, and when the run was closed.  A start of a step uses up what allows
it: the step was pending, or the run was resumed on it since the last start.  What the history owes
to its own past is kept by every move of the run.

Main definitions:

* `Runbook.Entry.starts`, `Runbook.Entry.resumesOn`, `Runbook.Entry.closes` — the entries counted;
* `Runbook.HistoryOk` — what the history of a run owes to its past.

Main results:

* `Runbook.Move.starts` — what a move that starts a step records;
* `Runbook.Move.historyOk` — **every move keeps the history in order**.
-/

import WiseLabz.Lib.History
import WiseLabz.Runbook.Calls

set_option relaxedAutoImplicit false
set_option autoImplicit false

namespace WiseLabz.Runbook

open Lib

/-! ### Entries -/

/-- The step is started. -/
def Entry.starts (stepId : Bytes) : Entry → Bool
  | .recorded id .running _ => id = stepId
  | _ => false

/-- The run is resumed while the step is its first unfinished one. -/
def Entry.resumesOn (stepId : Bytes) : Entry → Bool
  | .resumed (some id) _ => id = stepId
  | _ => false

/-- `perform` is invoked for the step. -/
def Entry.performs (stepId : Bytes) : Entry → Bool
  | .performed id _ => id = stepId
  | _ => false

/-- The step is recorded unknown. -/
def Entry.unknowns (stepId : Bytes) : Entry → Bool
  | .recorded id .unknown _ => id = stepId
  | _ => false

/-- The run is resumed with the decision to resend the step. -/
def Entry.resends (stepId : Bytes) : Entry → Bool
  | .resumed _ (some d) => d = ⟨stepId, .resend⟩
  | _ => false

/-- The run is cancelled, expired or rejected. -/
def Entry.closes : Entry → Bool
  | .moved .cancelled _ | .moved .expired _ | .moved .rejected _ => true
  | _ => false

/-- The step is of a kind that is not started again from unknown without a decision. -/
def DecisionKind (s : RunbookRunStepRecord) : Prop := s.kind = .connectorAction ∨ s.kind = .configPush

theorem resumeDecisionRequired_iff {s : RunbookRunStepRecord} :
    resumeDecisionRequired s = true ↔ s.state = .unknown ∧ DecisionKind s := by
  simp [resumeDecisionRequired, DecisionKind]

/-! ### What a move records -/

/-- The changes of the steps of a later version of a run. -/
theorem mem_stepChanges {revision : ℕ} {steps steps' : List RunbookRunStepRecord}
    (h : StepsLater steps steps') {e : Entry}
    (he : e ∈ (List.zipWith (stepChange revision) steps steps').flatten) :
    ∃ s ∈ steps, ∃ s' ∈ steps', StepLater s s' ∧ s'.state ≠ s.state ∧
      e = .recorded s.id s'.state revision := by
  induction h with
  | nil => simp at he
  | @cons s s' steps steps' hs _ ih =>
      rw [List.zipWith_cons_cons, List.flatten_cons, List.mem_append] at he
      rcases he with he | he
      · unfold stepChange at he
        split at he
        · simp at he
        · next hne =>
            exact ⟨s, List.mem_cons_self .., s', List.mem_cons_self .., hs, hne,
              List.mem_singleton.1 he⟩
      · obtain ⟨x, hx, x', hx', hlater, hne, he⟩ := ih he
        exact ⟨x, List.mem_cons_of_mem _ hx, x', List.mem_cons_of_mem _ hx', hlater, hne, he⟩

/-- The entries of a later version of a run. -/
theorem mem_changes {r r' : RunbookRun} (h : StepsLater r.steps r'.steps) {e : Entry}
    (he : e ∈ changes r r') :
    (e = .moved r'.state r'.updatedAt ∧ r'.state ≠ r.state) ∨
      ∃ s ∈ r.steps, ∃ s' ∈ r'.steps, StepLater s s' ∧ s'.state ≠ s.state ∧
        e = .recorded s.id s'.state r'.updatedAt := by
  rw [changes, List.mem_append] at he
  rcases he with he | he
  · split at he
    · simp at he
    · next hne => exact Or.inl ⟨List.mem_singleton.1 he, hne⟩
  · exact Or.inr (mem_stepChanges h he)

/-- Besides the changes of states a move records at most a resume. -/
theorem Move.extra {r r' : RunbookRun} {es : List Entry} (h : Move r es r') {e : Entry}
    (he : e ∈ es) : ∃ first decision, e = .resumed first decision := by
  cases h with
  | resume | markDone => exact ⟨_, _, List.mem_singleton.1 he⟩
  | _ => cases he

/-- What a move records. -/
theorem Move.mem_entries {r r' : RunbookRun} {es : List Entry} (h : Move r es r') {e : Entry}
    (he : e ∈ es ++ changes r r') :
    (∃ first decision, e = .resumed first decision) ∨
      (e = .moved r'.state r'.updatedAt ∧ r'.state ≠ r.state) ∨
      ∃ s ∈ r.steps, ∃ s' ∈ r'.steps, StepLater s s' ∧ s'.state ≠ s.state ∧
        e = .recorded s.id s'.state r'.updatedAt := by
  rcases List.mem_append.1 he with he | he
  · exact Or.inl (h.extra he)
  · exact Or.inr (mem_changes h.later.2.2 he)

/-- A start of a step records nothing else; the other moves start no step. -/
theorem Move.starts {r r' : RunbookRun} {es : List Entry} (h : Move r es r') :
    (∃ pre s post s', r.state = .running ∧ r'.state = .running ∧ startable s.state = true ∧
      r.steps = pre ++ s :: post ∧ r'.steps = pre ++ s' :: post ∧ StepBecomes s s' .running ∧
      es ++ changes r r' = [.recorded s.id .running r'.updatedAt]) ∨
    ∀ e ∈ es ++ changes r r', ∀ id, e.starts id = false := by
  have hmoved : ∀ e ∈ (if r'.state = r.state then [] else [Entry.moved r'.state r'.updatedAt]),
      ∀ id, e.starts id = false := by
    intro e he id
    split at he
    · simp at he
    · rw [List.mem_singleton.1 he]
      rfl
  have hstep : ∀ s s' : RunbookRunStepRecord, (s'.state = .running → s.state = .running) →
      ∀ e ∈ stepChange r'.updatedAt s s', ∀ id, e.starts id = false := by
    intro s s' hs' e he id
    unfold stepChange at he
    split at he
    · simp at he
    · next hne =>
        rw [List.mem_singleton.1 he]
        cases hstate : s'.state with
        | running => exact absurd (hstate.trans (hs' hstate).symm) hne
        | _ => rfl
  cases h with
  | @turn _ pre post s s' runState stepState turn split before last step started run steps =>
      by_cases hrunning : stepState = .running
      · subst hrunning
        have hstate := run.state
        have hturn : startable s.state = true ∧ r.state = .running ∧ runState = .running := by
          generalize r.state = x at turn ⊢
          generalize s.state = y at turn ⊢
          cases turn with
          | start h => exact ⟨h, rfl, rfl⟩
          | fail h => rcases h with h | h <;> cases h
        obtain ⟨hstartable, hr, rfl⟩ := hturn
        have hchanged : StepState.running ≠ s.state := by
          intro h
          rw [← h] at hstartable
          simp [startable] at hstartable
        refine Or.inl ⟨pre, s, post, s', hr, hstate, hstartable, split, steps, step, ?_⟩
        rw [changes_split split steps, hstate, hr, if_pos rfl, stepChange, step.state,
          if_neg hchanged]
        rfl
      · refine Or.inr fun e he id => ?_
        rw [changes_split split steps, List.nil_append, List.mem_append] at he
        rcases he with he | he
        · exact hmoved e he id
        · exact hstep s s' (fun h => absurd (step.state.symm.trans h) hrunning) e he id
  | approve _ run steps | failRun _ run steps | finishWithoutStep _ _ run steps =>
      refine Or.inr fun e he id => ?_
      rw [changes_same steps, List.nil_append] at he
      exact hmoved e he id
  | resume _ _ run steps =>
      refine Or.inr fun e he id => ?_
      rw [changes_same steps, List.mem_append] at he
      rcases he with he | he
      · rw [List.mem_singleton.1 he]
        rfl
      · exact hmoved e he id
  | markDone _ split _ _ step run steps =>
      refine Or.inr fun e he id => ?_
      rw [changes_split split steps, List.mem_append, List.mem_append] at he
      rcases he with he | he | he
      · rw [List.mem_singleton.1 he]
        rfl
      · exact hmoved e he id
      · exact hstep _ _ (by simp [step.state]) e he id
  | close _ _ step run steps | refuse _ _ step run steps | interrupt _ step run steps =>
      refine Or.inr fun e he id => ?_
      rw [changes_map steps, List.nil_append, List.mem_append, List.mem_flatMap] at he
      rcases he with he | ⟨s, -, he⟩
      · exact hmoved e he id
      · refine hstep _ _ ?_ e he id
        rw [(step s).state]
        cases s.state <;> simp [closedState, refusedState, interruptedState]

/-! ### What the history owes to its past -/

/-- A step that the executor may start now. -/
def Idle (r : RunbookRun) (s : RunbookRunStepRecord) : Prop :=
  s.state = .pending ∨ (r.state = .running ∧ (s.state = .failed ∨ s.state = .unknown))

/-- A step for which every unknown outcome has been decided. -/
def Decided (r : RunbookRun) (s : RunbookRunStepRecord) : Prop :=
  (s.state ≠ .unknown ∧ s.state ≠ .succeeded) ∨ (s.state = .unknown ∧ r.state = .running)

/-- The run is cancelled, expired or rejected. -/
def Closed (r : RunbookRun) : Prop :=
  r.state = .cancelled ∨ r.state = .expired ∨ r.state = .rejected

/-- **What the history of a run owes to its past.** -/
structure HistoryOk (r : RunbookRun) (h : List Entry) : Prop where
  /-- A step is started once, and once more for each resume on it. -/
  budget : ∀ s ∈ r.steps, h.countP (Entry.starts s.id) ≤ h.countP (Entry.resumesOn s.id) + 1
  /-- The next start of a step is paid for. -/
  idle : ∀ s ∈ r.steps, Idle r s →
    h.countP (Entry.starts s.id) ≤ h.countP (Entry.resumesOn s.id)
  foreign : ∀ id, (∀ s ∈ r.steps, s.id ≠ id) → h.countP (Entry.starts id) = 0
  revisions : ∀ id state revision, .recorded id state revision ∈ h → revision ≤ r.updatedAt
  /-- A revision starts a step at most once. -/
  distinct : ∀ id revision, h.count (.recorded id .running revision) ≤ 1
  closed : ∀ e ∈ h, e.closes = true → Closed r
  /-- No step is started after the run was closed. -/
  open_starts : Prior (fun pre e => ∀ id, e.starts id = true → ∀ e' ∈ pre, e'.closes = false) h
  decided : ∀ s ∈ r.steps, DecisionKind s → Decided r s →
    flag (Entry.unknowns s.id) (Entry.resends s.id) h = false
  /-- No step is started while an unknown outcome of it is undecided. -/
  resent : ∀ s ∈ r.steps, DecisionKind s → Prior (fun pre e => e.starts s.id = true →
    flag (Entry.unknowns s.id) (Entry.resends s.id) pre = false) h

theorem Entry.starts_iff {e : Entry} {id : Bytes} :
    e.starts id = true ↔ ∃ revision, e = .recorded id .running revision := by
  unfold Entry.starts
  split <;> simp_all

theorem Entry.unknowns_iff {e : Entry} {id : Bytes} :
    e.unknowns id = true ↔ ∃ revision, e = .recorded id .unknown revision := by
  unfold Entry.unknowns
  split <;> simp_all

/-- A step of a run before a move and after it, by its id. -/
theorem Move.mem_steps {r r' : RunbookRun} {es : List Entry} (h : Move r es r')
    {s' : RunbookRunStepRecord} (hs' : s' ∈ r'.steps) :
    ∃ s ∈ r.steps, s'.id = s.id ∧ (DecisionKind s' ↔ DecisionKind s) := by
  obtain ⟨s, hs, hlater⟩ := h.later.2.2.mem_right hs'
  exact ⟨s, hs, hlater.id, by simp only [DecisionKind, hlater.frozen]⟩

/-- Steps with the same id are the same. -/
theorem RunOk.eq_of_id {r : RunbookRun} (hr : RunOk r) {s s' : RunbookRunStepRecord}
    (hs : s ∈ r.steps) (hs' : s' ∈ r.steps) (hid : s.id = s'.id) : s = s' :=
  List.inj_on_of_nodup_map hr.nodup hs hs' hid

/-- The first unfinished step of a failed run is the one that is neither succeeded nor pending. -/
theorem RunOk.firstUnfinished {r : RunbookRun} (hr : RunOk r)
    (hopen : isOpenRunbookRunState r.state = true) {s : RunbookRunStepRecord} (hs : s ∈ r.steps)
    (hsucceeded : s.state ≠ .succeeded) (hpending : s.state ≠ .pending) :
    firstUnfinishedRunbookRunStep r.steps = some s := by
  obtain ⟨pre, post, hsplit⟩ := List.append_of_mem hs
  rw [hsplit]
  exact firstUnfinishedRunbookRunStep_split (hr.orderly.before hopen hsplit hpending) hsucceeded

/-- A step that may be started after a move might have been before, or the move is a resume on
it. -/
theorem Move.idle {r r' : RunbookRun} {es : List Entry} (h : Move r es r') (hr : RunOk r)
    {s' : RunbookRunStepRecord} (hs' : s' ∈ r'.steps) (hidle : Idle r' s') :
    ∃ s ∈ r.steps, s.id = s'.id ∧ (Idle r s ∨ ∃ e ∈ es, e.resumesOn s.id = true) := by
  cases h with
  | @turn _ pre post s s₁ runState stepState turn split before last step started run steps =>
      rw [steps, List.mem_append, List.mem_cons] at hs'
      have horder := hr.orderly.openOrder turn.isOpen
      rw [split] at horder
      rcases hs' with hs' | rfl | hs'
      · rcases hidle with h | ⟨-, h | h⟩ <;> simp [before s' hs'] at h
      · exfalso
        have hrun := run.state
        have hstep := step.state
        generalize r.state = x at turn
        generalize s.state = y at turn
        unfold Idle at hidle
        cases turn with
        | fail hx => rcases hx with rfl | rfl <;> simp [hrun, hstep] at hidle
        | _ => simp [hrun, hstep] at hidle
      · refine ⟨s', by simp [split, hs'], rfl, Or.inl (Or.inl ?_)⟩
        exact horder.1.after turn.not_succeeded s' hs'
  | approve state run steps =>
      rw [steps] at hs'
      have horder := hr.orderly
      rw [Orderly, state] at horder
      exact ⟨s', hs', rfl, Or.inl (Or.inl (horder s' hs'))⟩
  | failRun state run steps | finishWithoutStep state all run steps =>
      rw [steps] at hs'
      rcases hidle with h | ⟨h, -⟩
      · exact ⟨s', hs', rfl, Or.inl (Or.inl h)⟩
      · rw [run.state] at h
        cases h
  | resume state decided run steps =>
      rw [steps] at hs'
      refine ⟨s', hs', rfl, ?_⟩
      by_cases hpending : s'.state = .pending
      · exact Or.inl (Or.inl hpending)
      · have hsucceeded : s'.state ≠ .succeeded := by
          intro h
          simp [Idle, h] at hidle
        have hfirst := hr.firstUnfinished (by rw [state]; rfl) hs' hsucceeded hpending
        exact Or.inr ⟨_, List.mem_singleton_self _, by simp [Entry.resumesOn, hfirst]⟩
  | @markDone _ pre post s s₁ decision state split before unknown step run steps =>
      rw [steps, List.mem_append, List.mem_cons] at hs'
      have horder := hr.orderly.openOrder (by rw [state]; rfl)
      rw [split] at horder
      rcases hs' with hs' | rfl | hs'
      · rcases hidle with h | ⟨-, h | h⟩ <;> simp [before s' hs'] at h
      · rcases hidle with h | ⟨-, h | h⟩ <;> simp [step.state] at h
      · refine ⟨s', by simp [split, hs'], rfl, Or.inl (Or.inl ?_)⟩
        exact horder.1.after (by simp [unknown]) s' hs'
  | close isOpen closed step run steps =>
      rw [steps] at hs'
      obtain ⟨s, hs, rfl⟩ := List.mem_map.1 hs'
      exfalso
      unfold Idle at hidle
      rw [run.state, (step s).state] at hidle
      rcases closed with rfl | rfl <;> cases hstate : s.state <;>
        simp [closedState, hstate] at hidle
  | refuse awaiting closed step run steps =>
      rw [steps] at hs'
      obtain ⟨s, hs, rfl⟩ := List.mem_map.1 hs'
      exfalso
      unfold Idle at hidle
      rw [run.state, (step s).state] at hidle
      rcases closed with rfl | rfl <;> cases hstate : s.state <;>
        simp [refusedState, hstate] at hidle
  | interrupt state step run steps =>
      rw [steps] at hs'
      obtain ⟨s, hs, rfl⟩ := List.mem_map.1 hs'
      refine ⟨s, hs, ((step s).id).symm, Or.inl (Or.inl ?_)⟩
      have horder := hr.orderly
      rw [Orderly, state] at horder
      have hwaiting := horder.2 s hs
      unfold Idle at hidle
      rw [run.state, (step s).state] at hidle
      cases hstate : s.state <;> simp_all [interruptedState]

/-- A step whose unknown outcomes are decided after a move had them decided before, or the move is a
resume that decides. -/
theorem Move.decided {r r' : RunbookRun} {es : List Entry} (h : Move r es r') (hr : RunOk r)
    {s' : RunbookRunStepRecord} (hs' : s' ∈ r'.steps) (hkind : DecisionKind s')
    (hdecided : Decided r' s') :
    ∃ s ∈ r.steps, s.id = s'.id ∧ (Decided r s ∨ ∃ e, es = [e] ∧ e.resends s.id = true) ∧
      (s'.state = .unknown → s.state = .unknown) := by
  cases h with
  | @turn _ pre post s s₁ runState stepState turn split before last step started run steps =>
      rw [steps, List.mem_append, List.mem_cons] at hs'
      have horder := hr.orderly.openOrder turn.isOpen
      rw [split] at horder
      rcases hs' with hs' | rfl | hs'
      · rcases hdecided with ⟨-, h⟩ | ⟨h, -⟩ <;> simp [before s' hs'] at h
      · have hrun := run.state
        have hstep := step.state
        refine ⟨s, by simp [split], step.id.symm, ?_⟩
        unfold Decided at hdecided ⊢
        generalize r.state = x at turn ⊢
        generalize s.state = y at turn ⊢
        cases turn with
        | @start x h => cases y <;> simp_all [startable]
        | fail hx => rcases hx with rfl | rfl <;> simp_all
        | _ => simp_all
      · have hpending := horder.1.after turn.not_succeeded s' hs'
        exact ⟨s', by simp [split, hs'], rfl, Or.inl (Or.inl (by simp [hpending])), fun h => h⟩
  | approve state run steps =>
      rw [steps] at hs'
      have horder := hr.orderly
      rw [Orderly, state] at horder
      exact ⟨s', hs', rfl, Or.inl (Or.inl (by simp [horder s' hs'])), fun h => h⟩
  | failRun state run steps | finishWithoutStep state all run steps =>
      rw [steps] at hs'
      refine ⟨s', hs', rfl, Or.inl (Or.inl ?_), fun h => h⟩
      rcases hdecided with h | ⟨-, h⟩
      · exact h
      · rw [run.state] at h
        cases h
  | resume state decided run steps =>
      rw [steps] at hs'
      refine ⟨s', hs', rfl, ?_, fun h => h⟩
      rcases hdecided with h | ⟨h, -⟩
      · exact Or.inl (Or.inl h)
      · have hfirst := hr.firstUnfinished (by rw [state]; rfl) hs' (by simp [h]) (by simp [h])
        have hdecision := decided s' hfirst (resumeDecisionRequired_iff.2 ⟨h, hkind⟩)
        exact Or.inr ⟨_, rfl, by simp [Entry.resends, hdecision]⟩
  | @markDone _ pre post s s₁ decision state split before unknown step run steps =>
      rw [steps, List.mem_append, List.mem_cons] at hs'
      have horder := hr.orderly.openOrder (by rw [state]; rfl)
      rw [split] at horder
      rcases hs' with hs' | rfl | hs'
      · rcases hdecided with ⟨-, h⟩ | ⟨h, -⟩ <;> simp [before s' hs'] at h
      · rcases hdecided with ⟨-, h⟩ | ⟨h, -⟩ <;> simp [step.state] at h
      · have hpending := horder.1.after (by simp [unknown]) s' hs'
        exact ⟨s', by simp [split, hs'], rfl, Or.inl (Or.inl (by simp [hpending])), fun h => h⟩
  | close isOpen closed step run steps =>
      rw [steps] at hs'
      obtain ⟨s, hs, rfl⟩ := List.mem_map.1 hs'
      refine ⟨s, hs, ((step s).id).symm, ?_⟩
      unfold Decided at hdecided ⊢
      rw [run.state, (step s).state] at hdecided
      rw [(step s).state]
      rcases closed with rfl | rfl <;> cases hstate : s.state <;> simp_all [closedState]
  | refuse awaiting closed step run steps =>
      rw [steps] at hs'
      obtain ⟨s, hs, rfl⟩ := List.mem_map.1 hs'
      refine ⟨s, hs, ((step s).id).symm, ?_⟩
      unfold Decided at hdecided ⊢
      rw [run.state, (step s).state] at hdecided
      rw [(step s).state]
      rcases closed with rfl | rfl <;> cases hstate : s.state <;> simp_all [refusedState]
  | interrupt state step run steps =>
      rw [steps] at hs'
      obtain ⟨s, hs, rfl⟩ := List.mem_map.1 hs'
      refine ⟨s, hs, ((step s).id).symm, ?_⟩
      unfold Decided at hdecided ⊢
      rw [run.state, (step s).state] at hdecided
      rw [(step s).state]
      cases hstate : s.state <;> simp_all [interruptedState]

theorem flag_of_cleared {set clear : Entry → Bool} {h es : List Entry} {e : Entry}
    (hset : set e = false) (hclear : clear e = true) (hes : ∀ x ∈ es, set x = false) :
    flag set clear (h ++ ([e] ++ es)) = false := by
  rw [← List.append_assoc]
  refine flag_append_eq_false ?_ hes
  rw [flag_concat, hset, hclear]
  simp

/-- A closed run makes no move. -/
theorem Move.not_closed {r r' : RunbookRun} {es : List Entry} (h : Move r es r') : ¬ Closed r := by
  have hopen : isOpenRunbookRunState r.state = true := by
    cases h with
    | turn turn => exact turn.isOpen
    | close isOpen => exact isOpen
    | approve state | failRun state | finishWithoutStep state | resume state | markDone state
    | refuse state | interrupt state =>
        rw [state]
        rfl
  rintro (h | h | h) <;> rw [h] at hopen <;> cases hopen

section HistoryOk

variable {r r' : RunbookRun} {es h : List Entry}

/-- The step changes that a move records. -/
theorem Move.recorded (hmove : Move r es r') {id : Bytes} {state : StepState} {revision : ℕ}
    (he : .recorded id state revision ∈ es ++ changes r r') :
    ∃ s ∈ r.steps, ∃ s' ∈ r'.steps, s.id = id ∧ s'.id = id ∧ s'.state = state ∧
      s'.state ≠ s.state ∧ revision = r'.updatedAt := by
  obtain ⟨_, _, he⟩ | ⟨he, -⟩ | ⟨s, hs, s', hs', hlater, hne, he⟩ := hmove.mem_entries he
  · cases he
  · cases he
  · cases he
    exact ⟨s, hs, s', hs', rfl, hlater.id, rfl, hne, rfl⟩

/-- A run that makes a move has not been closed before. -/
theorem Move.not_closed_before (hmove : Move r es r') (hh : HistoryOk r h) :
    ∀ e ∈ h, e.closes = false := by
  intro e he
  by_contra hcloses
  exact hmove.not_closed (hh.closed e he (by simpa using hcloses))

/-- A move does not record a step unknown that stays as it was. -/
theorem Move.unknowns (hmove : Move r es r') (hr : RunOk r) {s s' : RunbookRunStepRecord}
    (hs : s ∈ r.steps) (hs' : s' ∈ r'.steps) (hid : s.id = s'.id)
    (hsame : s'.state = .unknown → s.state = .unknown) :
    ∀ e ∈ es ++ changes r r', e.unknowns s.id = false := by
  intro e he
  by_contra hset
  obtain ⟨revision, rfl⟩ := Entry.unknowns_iff.1 (by simpa using hset)
  obtain ⟨x, hx, x', hx', hxid, hxid', hstate, hne, -⟩ := hmove.recorded he
  obtain rfl := hr.eq_of_id hx hs hxid
  obtain rfl := (hmove.runOk hr).eq_of_id hx' hs' (hxid'.trans hid)
  exact hne (hstate.trans (hsame hstate).symm)

theorem resumes_mono (h new : List Entry) (id : Bytes) :
    h.countP (Entry.resumesOn id) ≤ (h ++ new).countP (Entry.resumesOn id) := by
  rw [List.countP_append]
  omega

/-- A start uses up what allows it. -/
theorem Move.keeps_budget (hmove : Move r es r') (hr : RunOk r) (hh : HistoryOk r h)
    {s' : RunbookRunStepRecord} (hs' : s' ∈ r'.steps) :
    (h ++ (es ++ changes r r')).countP (Entry.starts s'.id) ≤
      (h ++ (es ++ changes r r')).countP (Entry.resumesOn s'.id) + 1 := by
  obtain ⟨s, hs, hid, -⟩ := hmove.mem_steps hs'
  rw [hid]
  refine le_trans ?_ (Nat.add_le_add_right (resumes_mono h _ s.id) 1)
  rcases hmove.starts with ⟨pre, x, post, x', hrun, -, hstartable, hsplit, -, -, hes⟩ | hnone
  · rw [hes, List.countP_append, List.countP_singleton]
    by_cases hx : Entry.starts s.id (.recorded x.id .running r'.updatedAt) = true
    · have hxs : x = s := hr.eq_of_id (by simp [hsplit]) hs (by simpa [Entry.starts] using hx)
      have hidle : Idle r s := by
        rw [← hxs]
        cases hstate : x.state <;> simp_all [startable, Idle]
      rw [if_pos hx]
      exact Nat.add_le_add_right (hh.idle s hs hidle) 1
    · rw [if_neg hx]
      exact hh.budget s hs
  · have hzero : (es ++ changes r r').countP (Entry.starts s.id) = 0 :=
      List.countP_eq_zero.2 fun e he => by simp [hnone e he]
    rw [List.countP_append, hzero]
    exact hh.budget s hs

/-- What may be started after a move is paid for. -/
theorem Move.keeps_idle (hmove : Move r es r') (hr : RunOk r) (hh : HistoryOk r h)
    {s' : RunbookRunStepRecord} (hs' : s' ∈ r'.steps) (hidle : Idle r' s') :
    (h ++ (es ++ changes r r')).countP (Entry.starts s'.id) ≤
      (h ++ (es ++ changes r r')).countP (Entry.resumesOn s'.id) := by
  obtain ⟨s, hs, hid, hor⟩ := hmove.idle hr hs' hidle
  rw [← hid]
  have hstarts : (h ++ (es ++ changes r r')).countP (Entry.starts s.id) =
      h.countP (Entry.starts s.id) := by
    rw [List.countP_append, Nat.add_eq_left, List.countP_eq_zero]
    intro e he hstart
    obtain ⟨revision, rfl⟩ := Entry.starts_iff.1 hstart
    obtain ⟨x, hx, x', hx', hxid, hxid', hstate, -⟩ := hmove.recorded he
    obtain rfl := (hmove.runOk hr).eq_of_id hx' hs' (hxid'.trans hid)
    rcases hidle with h | ⟨-, h | h⟩ <;> rw [hstate] at h <;> cases h
  rw [hstarts]
  rcases hor with hidle₀ | ⟨e, he, hresume⟩
  · exact (hh.idle s hs hidle₀).trans (resumes_mono h _ s.id)
  · refine (hh.budget s hs).trans ?_
    rw [List.countP_append]
    have : 0 < (es ++ changes r r').countP (Entry.resumesOn s.id) :=
      List.countP_pos_iff.2 ⟨e, List.mem_append_left _ he, hresume⟩
    omega

theorem Move.keeps_foreign (hmove : Move r es r') (hh : HistoryOk r h) {id : Bytes}
    (hid : ∀ s' ∈ r'.steps, s'.id ≠ id) :
    (h ++ (es ++ changes r r')).countP (Entry.starts id) = 0 := by
  have hids : r'.steps.map RunbookRunStepRecord.id = r.steps.map RunbookRunStepRecord.id :=
    hmove.later.2.2.map_eq fun _ _ h => h.id
  have hforeign : ∀ s ∈ r.steps, s.id ≠ id := by
    intro s hs hsid
    have hmem : s.id ∈ r'.steps.map RunbookRunStepRecord.id := by
      rw [hids]
      exact List.mem_map_of_mem hs
    obtain ⟨s', hs', hs'id⟩ := List.mem_map.1 hmem
    exact hid s' hs' (hs'id.trans hsid)
  rw [List.countP_append, hh.foreign id hforeign, Nat.zero_add, List.countP_eq_zero]
  intro e he hstart
  obtain ⟨revision, rfl⟩ := Entry.starts_iff.1 hstart
  obtain ⟨-, -, s', hs', -, hs'id, -⟩ := hmove.recorded he
  exact hid s' hs' hs'id

theorem Move.keeps_revisions (hmove : Move r es r') (hh : HistoryOk r h) {id : Bytes}
    {state : StepState} {revision : ℕ}
    (he : .recorded id state revision ∈ h ++ (es ++ changes r r')) : revision ≤ r'.updatedAt := by
  rcases List.mem_append.1 he with he | he
  · exact (hh.revisions id state revision he).trans hmove.later.2.1.le
  · obtain ⟨-, -, -, -, -, -, -, -, hrevision⟩ := hmove.recorded he
    exact hrevision.le

/-- A start is recorded at a revision that no earlier entry has. -/
theorem Move.keeps_distinct (hmove : Move r es r') (hh : HistoryOk r h) (id : Bytes)
    (revision : ℕ) :
    (h ++ (es ++ changes r r')).count (.recorded id .running revision) ≤ 1 := by
  rw [List.count_append]
  rcases hmove.starts with ⟨pre, x, post, x', -, -, -, -, -, -, hes⟩ | hnone
  · rw [hes, List.count_singleton]
    split
    · next heq =>
        simp only [beq_iff_eq, Entry.recorded.injEq, true_and] at heq
        have hnew : h.count (.recorded id .running revision) = 0 := by
          rw [List.count_eq_zero]
          intro hmem
          have := hh.revisions _ _ _ hmem
          have := hmove.later.2.1
          omega
        omega
    · exact hh.distinct id revision
  · have hzero : (es ++ changes r r').count (.recorded id .running revision) = 0 := by
      rw [List.count_eq_zero]
      intro hmem
      simpa [Entry.starts] using hnone _ hmem id
    rw [hzero]
    exact hh.distinct id revision

theorem Move.keeps_closed (hmove : Move r es r') (hh : HistoryOk r h) {e : Entry}
    (he : e ∈ h ++ (es ++ changes r r')) (hcloses : e.closes = true) : Closed r' := by
  rcases List.mem_append.1 he with he | he
  · rw [hmove.not_closed_before hh e he] at hcloses
    cases hcloses
  · obtain ⟨_, _, rfl⟩ | ⟨rfl, -⟩ | ⟨s, hs, s', hs', hlater, hne, rfl⟩ := hmove.mem_entries he
    · cases hcloses
    · unfold Closed
      cases hstate : r'.state <;> simp_all [Entry.closes]
    · cases hcloses

theorem Move.keeps_open_starts (hmove : Move r es r') (hh : HistoryOk r h) :
    Prior (fun pre e => ∀ id, e.starts id = true → ∀ e' ∈ pre, e'.closes = false)
      (h ++ (es ++ changes r r')) := by
  rw [prior_append]
  refine ⟨hh.open_starts, ?_⟩
  rcases hmove.starts with ⟨pre, x, post, x', -, -, -, -, -, -, hes⟩ | hnone
  · rw [hes, prior_cons]
    exact ⟨fun id _ e he => hmove.not_closed_before hh e (by simpa using he), prior_nil⟩
  · intro pre e post hsplit id hstart
    rw [hnone e (by simp [hsplit])] at hstart
    cases hstart

theorem Move.keeps_decided (hmove : Move r es r') (hr : RunOk r) (hh : HistoryOk r h)
    {s' : RunbookRunStepRecord} (hs' : s' ∈ r'.steps) (hkind : DecisionKind s')
    (hdecided : Decided r' s') :
    flag (Entry.unknowns s'.id) (Entry.resends s'.id) (h ++ (es ++ changes r r')) = false := by
  obtain ⟨s, hs, hid, hor, hsame⟩ := hmove.decided hr hs' hkind hdecided
  obtain ⟨s₀, hs₀, hid₀, hkind₀⟩ := hmove.mem_steps hs'
  obtain rfl := hr.eq_of_id hs₀ hs (hid₀.symm.trans hid.symm)
  rw [hid₀]
  have hset := hmove.unknowns hr hs hs' hid hsame
  rcases hor with hold | ⟨e, rfl, hresend⟩
  · exact flag_append_eq_false (hh.decided s₀ hs (hkind₀.1 hkind) hold) hset
  · exact flag_of_cleared (hset e (by simp)) hresend fun x hx => hset x (by simp [hx])

theorem Move.keeps_resent (hmove : Move r es r') (hr : RunOk r) (hh : HistoryOk r h)
    {s' : RunbookRunStepRecord} (hs' : s' ∈ r'.steps) (hkind : DecisionKind s') :
    Prior (fun pre e => e.starts s'.id = true →
      flag (Entry.unknowns s'.id) (Entry.resends s'.id) pre = false)
      (h ++ (es ++ changes r r')) := by
  obtain ⟨s, hs, hid, hkind'⟩ := hmove.mem_steps hs'
  rw [hid, prior_append]
  refine ⟨hh.resent s hs (hkind'.1 hkind), ?_⟩
  rcases hmove.starts with ⟨pre, x, post, x', hrun, -, hstartable, hsplit, -, -, hes⟩ | hnone
  · rw [hes, prior_cons]
    refine ⟨fun hstart => ?_, prior_nil⟩
    have hxs : x = s := hr.eq_of_id (by simp [hsplit]) hs (by simpa [Entry.starts] using hstart)
    rw [List.append_nil]
    refine hh.decided s hs (hkind'.1 hkind) ?_
    rw [← hxs]
    cases hstate : x.state <;> simp_all [startable, Decided]
  · intro pre e post hsplit hstart
    rw [hnone e (by simp [hsplit])] at hstart
    cases hstart

/-- **Every move keeps the history in order.** -/
theorem Move.historyOk (hmove : Move r es r') (hr : RunOk r) (hh : HistoryOk r h) :
    HistoryOk r' (h ++ (es ++ changes r r')) where
  budget _ hs' := hmove.keeps_budget hr hh hs'
  idle _ hs' hidle := hmove.keeps_idle hr hh hs' hidle
  foreign _ hid := hmove.keeps_foreign hh hid
  revisions _ _ _ he := hmove.keeps_revisions hh he
  distinct id revision := hmove.keeps_distinct hh id revision
  closed _ he hcloses := hmove.keeps_closed hh he hcloses
  open_starts := hmove.keeps_open_starts hh
  decided _ hs' hkind hdecided := hmove.keeps_decided hr hh hs' hkind hdecided
  resent _ hs' hkind := hmove.keeps_resent hr hh hs' hkind

end HistoryOk

end WiseLabz.Runbook
