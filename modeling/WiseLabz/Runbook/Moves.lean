/-
**What can happen to a runbook run.**

A run is worked through step by step, so at any time there is one step under way, all before it have
succeeded and all behind it are pending.  Here the writes of the store are seen as the moves of such
a process: the step under way takes its next turn, the run as a whole is moved on, or it is closed.
Each move says what it finds and what it leaves, and every call of the store that succeeds on an
orderly run is one.

Main definitions:

* `Runbook.Entry`, `Runbook.changes` — what the history of a run records, and what a write adds;
* `Runbook.Turn`, `Runbook.Move` — the turns of the step under way, and the moves of a run;
* `Runbook.Orderly` — **the order of the steps**, and how it goes with the state of the run;
* `Runbook.RunOk` — an orderly run with distinct step ids, numbered from the front.

Main results:

* `Runbook.Move.runOk` — every move keeps a run orderly;
* `Runbook.Move.later` — no move changes what a step does, or takes back a success;
* `Runbook.updateRunbookRunStep_start_moves` and the like — the calls are moves.
-/

import WiseLabz.Runbook.Store
import Mathlib.Data.List.Range

set_option relaxedAutoImplicit false
set_option autoImplicit false

namespace WiseLabz.Runbook

open Lib

/-! ### The history of a run -/

/-- The caller's choice for the first unfinished step of a failed run. -/
inductive ResumeDecision
  | none
  | resend
  | markDone
  deriving DecidableEq, Repr

/-- A decision that a resume applied to a step. -/
structure StepDecision where
  stepId : Bytes
  decision : ResumeDecision
  deriving DecidableEq, Repr

/-- What the history of a run records: the state changes of the run and of its steps with the
revision that made them, the resumes with the first unfinished step they found and the decision they
carried, and the invocations of `perform` with the start time of the step they were given. -/
inductive Entry
  | moved (state : RunState) (revision : ℕ)
  | recorded (stepId : Bytes) (state : StepState) (revision : ℕ)
  | resumed (first : Option Bytes) (decision : Option StepDecision)
  | performed (stepId : Bytes) (startedAt : Option ℕ)
  deriving DecidableEq, Repr

/-- The entry for one step. -/
def stepChange (revision : ℕ) (s s' : RunbookRunStepRecord) : List Entry :=
  if s'.state = s.state then [] else [.recorded s.id s'.state revision]

/-- What a write adds to the history of the run. -/
def changes (r r' : RunbookRun) : List Entry :=
  (if r'.state = r.state then [] else [.moved r'.state r'.updatedAt]) ++
    (List.zipWith (stepChange r'.updatedAt) r.steps r'.steps).flatten

/-! ### Moves -/

/-- All these steps have succeeded. -/
def AllSucceeded (steps : List RunbookRunStepRecord) : Prop := ∀ s ∈ steps, s.state = .succeeded

/-- A step may be started. -/
def startable (state : StepState) : Bool :=
  state = .pending || state = .failed || state = .unknown

/-- The step is the same one, in another state. -/
structure StepBecomes (s s' : RunbookRunStepRecord) (state : StepState) : Prop where
  frozen : s'.toFrozenStep = s.toFrozenStep
  id : s'.id = s.id
  position : s'.position = s.position
  state : s'.state = state

/-- The run is the same one, in another state and at a later revision. -/
structure Becomes (r r' : RunbookRun) (state : RunState) : Prop where
  id : r'.id = r.id
  later : r.updatedAt < r'.updatedAt
  state : r'.state = state

/-- The turns of the step under way: the states of the run and of the step, before and after. -/
inductive Turn : RunState → StepState → RunState → StepState → Prop
  | start {x : StepState} (h : startable x = true) : Turn .running x .running .running
  | succeed : Turn .running .running .running .succeeded
  | pause : Turn .running .pending .waitingManual .waiting
  | fail {x : StepState} (h : x = .failed ∨ x = .unknown) : Turn .running .running .failed x
  | finish : Turn .running .running .succeeded .succeeded
  | confirm : Turn .waitingManual .waiting .running .succeeded

/-- What closing a run makes of a step. -/
def closedState : StepState → StepState
  | .running => .unknown
  | .pending | .waiting => .skipped
  | x => x

/-- What refusing an approval request makes of a step. -/
def refusedState : StepState → StepState
  | .pending => .skipped
  | x => x

/-- What startup makes of a step of a run it finds running. -/
def interruptedState : StepState → StepState
  | .running => .unknown
  | .waiting => .pending
  | x => x

/-- An unknown step of these kinds is not started again without a decision. -/
def resumeDecisionRequired (s : RunbookRunStepRecord) : Bool :=
  s.state = .unknown && (s.kind = .connectorAction || s.kind = .configPush)

/-- **The moves of a run**, with what they record besides the changes of states. -/
inductive Move (r : RunbookRun) : List Entry → RunbookRun → Prop
  | turn {r' : RunbookRun} {pre post : List RunbookRunStepRecord} {s s' : RunbookRunStepRecord}
      {runState : RunState} {stepState : StepState}
      (turn : Turn r.state s.state runState stepState) (split : r.steps = pre ++ s :: post)
      (before : AllSucceeded pre) (last : runState = .succeeded → AllSucceeded post)
      (step : StepBecomes s s' stepState)
      (started : stepState = .running → s'.startedAt = some r'.updatedAt)
      (run : Becomes r r' runState) (steps : r'.steps = pre ++ s' :: post) : Move r [] r'
  | approve {r' : RunbookRun} (state : r.state = .awaitingApproval)
      (run : Becomes r r' .running) (steps : r'.steps = r.steps) : Move r [] r'
  | failRun {r' : RunbookRun} (state : r.state = .running) (run : Becomes r r' .failed)
      (steps : r'.steps = r.steps) : Move r [] r'
  | finishWithoutStep {r' : RunbookRun} (state : r.state = .running) (all : AllSucceeded r.steps)
      (run : Becomes r r' .succeeded) (steps : r'.steps = r.steps) : Move r [] r'
  | resume {r' : RunbookRun} {decision : Option StepDecision} (state : r.state = .failed)
      (decided : ∀ s, firstUnfinishedRunbookRunStep r.steps = some s →
        resumeDecisionRequired s = true → decision = some ⟨s.id, .resend⟩)
      (run : Becomes r r' .running) (steps : r'.steps = r.steps) :
      Move r [.resumed ((firstUnfinishedRunbookRunStep r.steps).map (·.id)) decision] r'
  | markDone {r' : RunbookRun} {pre post : List RunbookRunStepRecord}
      {s s' : RunbookRunStepRecord} {decision : Option StepDecision} (state : r.state = .failed)
      (split : r.steps = pre ++ s :: post) (before : AllSucceeded pre)
      (unknown : s.state = .unknown) (step : StepBecomes s s' .succeeded)
      (run : Becomes r r' .running) (steps : r'.steps = pre ++ s' :: post) :
      Move r [.resumed (some s.id) decision] r'
  | close {r' : RunbookRun} {f : RunbookRunStepRecord → RunbookRunStepRecord} {state : RunState}
      (isOpen : isOpenRunbookRunState r.state = true) (closed : state = .cancelled ∨ state = .expired)
      (step : ∀ s, StepBecomes s (f s) (closedState s.state))
      (run : Becomes r r' state) (steps : r'.steps = r.steps.map f) : Move r [] r'
  | refuse {r' : RunbookRun} {f : RunbookRunStepRecord → RunbookRunStepRecord} {state : RunState}
      (awaiting : r.state = .awaitingApproval) (closed : state = .rejected ∨ state = .expired)
      (step : ∀ s, StepBecomes s (f s) (refusedState s.state))
      (run : Becomes r r' state) (steps : r'.steps = r.steps.map f) : Move r [] r'
  | interrupt {r' : RunbookRun} {f : RunbookRunStepRecord → RunbookRunStepRecord}
      (state : r.state = .running) (step : ∀ s, StepBecomes s (f s) (interruptedState s.state))
      (run : Becomes r r' .failed) (steps : r'.steps = r.steps.map f) : Move r [] r'

/-! ### What no move changes -/

/-- The step is the same one later on: what it does stays, and so does a success. -/
structure StepLater (s s' : RunbookRunStepRecord) : Prop where
  frozen : s'.toFrozenStep = s.toFrozenStep
  id : s'.id = s.id
  position : s'.position = s.position
  succeeded : s.state = .succeeded → s'.state = .succeeded

theorem StepLater.refl (s : RunbookRunStepRecord) : StepLater s s := ⟨rfl, rfl, rfl, fun hs => hs⟩

/-- The steps are the same ones later on. -/
abbrev StepsLater : List RunbookRunStepRecord → List RunbookRunStepRecord → Prop :=
  List.Forall₂ StepLater

theorem stepsLater_refl (steps : List RunbookRunStepRecord) : StepsLater steps steps :=
  List.forall₂_same.2 fun s _ => .refl s

theorem StepBecomes.later {s s' : RunbookRunStepRecord} {state : StepState}
    (h : StepBecomes s s' state) (hs : s.state = .succeeded → state = .succeeded) :
    StepLater s s' := ⟨h.frozen, h.id, h.position, fun hs' => h.state.trans (hs hs')⟩

theorem stepsLater_split {pre post : List RunbookRunStepRecord} {s s' : RunbookRunStepRecord}
    (h : StepLater s s') : StepsLater (pre ++ s :: post) (pre ++ s' :: post) :=
  forall₂_append_cons.2 ⟨pre, s', post, rfl, stepsLater_refl pre, h, stepsLater_refl post⟩

theorem stepsLater_map {steps : List RunbookRunStepRecord}
    {f : RunbookRunStepRecord → RunbookRunStepRecord} (h : ∀ s, StepLater s (f s)) :
    StepsLater steps (steps.map f) := by
  induction steps with
  | nil => exact .nil
  | cons s steps ih => exact .cons (h s) ih

theorem Turn.not_succeeded {x : RunState} {y : StepState} {x' : RunState} {y' : StepState}
    (h : Turn x y x' y') : y ≠ .succeeded := by
  cases h with
  | start h =>
      rintro rfl
      simp [startable] at h
  | succeed | pause | fail | finish | confirm => simp

theorem Turn.isOpen {x : RunState} {y : StepState} {x' : RunState} {y' : StepState}
    (h : Turn x y x' y') : isOpenRunbookRunState x = true := by
  cases h <;> rfl

/-- No move changes what a step does or takes back a success, and every move is a new revision. -/
theorem Move.later {r r' : RunbookRun} {es : List Entry} (h : Move r es r') :
    r'.id = r.id ∧ r.updatedAt < r'.updatedAt ∧ StepsLater r.steps r'.steps := by
  cases h with
  | turn turn split before last step started run steps =>
      refine ⟨run.id, run.later, ?_⟩
      rw [split, steps]
      exact stepsLater_split (step.later fun hs => absurd hs turn.not_succeeded)
  | markDone state split before unknown step run steps =>
      refine ⟨run.id, run.later, ?_⟩
      rw [split, steps]
      exact stepsLater_split (step.later fun _ => rfl)
  | approve _ run steps | failRun _ run steps | finishWithoutStep _ _ run steps
  | resume _ _ run steps =>
      refine ⟨run.id, run.later, ?_⟩
      rw [steps]
      exact stepsLater_refl _
  | close isOpen closed step run steps =>
      refine ⟨run.id, run.later, ?_⟩
      rw [steps]
      exact stepsLater_map fun s => (step s).later fun hs => by rw [hs]; rfl
  | refuse awaiting closed step run steps =>
      refine ⟨run.id, run.later, ?_⟩
      rw [steps]
      exact stepsLater_map fun s => (step s).later fun hs => by rw [hs]; rfl
  | interrupt state step run steps =>
      refine ⟨run.id, run.later, ?_⟩
      rw [steps]
      exact stepsLater_map fun s => (step s).later fun hs => by rw [hs]; rfl

/-- A step of a later version of the run was there before. -/
theorem StepsLater.mem_right {steps steps' : List RunbookRunStepRecord}
    (h : StepsLater steps steps') {s' : RunbookRunStepRecord} (hs : s' ∈ steps') :
    ∃ s ∈ steps, StepLater s s' := by
  induction h with
  | nil => simp at hs
  | cons hab _ ih =>
      rcases List.mem_cons.1 hs with rfl | hs
      · exact ⟨_, List.mem_cons_self .., hab⟩
      · obtain ⟨s, hs, hlater⟩ := ih hs
        exact ⟨s, List.mem_cons_of_mem _ hs, hlater⟩

theorem StepsLater.map_eq {γ : Type} {steps steps' : List RunbookRunStepRecord}
    (h : StepsLater steps steps') {f : RunbookRunStepRecord → γ}
    (hf : ∀ s s', StepLater s s' → f s' = f s) : steps'.map f = steps.map f := by
  induction h with
  | nil => rfl
  | cons hab _ ih => rw [List.map_cons, List.map_cons, ih, hf _ _ hab]

theorem StepsLater.allSucceeded {steps steps' : List RunbookRunStepRecord}
    (h : StepsLater steps steps') (hs : AllSucceeded steps) : AllSucceeded steps' := by
  intro s' hs'
  obtain ⟨s, hmem, hlater⟩ := h.mem_right hs'
  exact hlater.succeeded (hs s hmem)

/-! ### The order of the steps -/

/-- While a run is open: what is before the step under way has succeeded, what is behind it is
pending, and nothing has been skipped. -/
def OpenOrder (steps : List RunbookRunStepRecord) : Prop :=
  Around (fun s => s.state = .succeeded) (fun s => s.state = .pending) steps ∧
    ∀ s ∈ steps, s.state ≠ .skipped

/-- Once a run is closed: what was behind the step under way has been skipped. -/
def ClosedOrder (steps : List RunbookRunStepRecord) : Prop :=
  Around (fun s => s.state = .succeeded) (fun s => s.state = .skipped) steps ∧
    ∀ s ∈ steps, s.state = .succeeded ∨ s.state = .failed ∨ s.state = .unknown ∨ s.state = .skipped

/-- **The order of the steps**, and how it goes with the state of the run. -/
def Orderly (r : RunbookRun) : Prop :=
  match r.state with
  | .awaitingApproval => ∀ s ∈ r.steps, s.state = .pending
  | .running | .failed => OpenOrder r.steps ∧ ∀ s ∈ r.steps, s.state ≠ .waiting
  | .waitingManual => OpenOrder r.steps ∧ ∃ s ∈ r.steps, s.state = .waiting
  | .succeeded => AllSucceeded r.steps
  | .cancelled | .expired => ClosedOrder r.steps
  | .rejected => ∀ s ∈ r.steps, s.state = .skipped

/-- An orderly run whose steps have distinct ids and are numbered from the front. -/
structure RunOk (r : RunbookRun) : Prop where
  orderly : Orderly r
  nodup : (r.steps.map (·.id)).Nodup
  positions : r.steps.map (·.position) = List.range r.steps.length

theorem openOrder_of_pending {steps : List RunbookRunStepRecord}
    (h : ∀ s ∈ steps, s.state = .pending) : OpenOrder steps :=
  ⟨around_of_forall_right h, fun s hs => by simp [h s hs]⟩

/-- An open run is in its order. -/
theorem Orderly.openOrder {r : RunbookRun} (h : Orderly r)
    (hopen : isOpenRunbookRunState r.state = true) : OpenOrder r.steps := by
  unfold Orderly at h
  cases hs : r.state <;> rw [hs] at h hopen
  case running | failed | waitingManual => exact h.1
  case awaitingApproval => exact openOrder_of_pending h
  all_goals simp [isOpenRunbookRunState] at hopen

/-- The steps after a turn of the step under way. -/
theorem OpenOrder.replace {pre post : List RunbookRunStepRecord} {s s' : RunbookRunStepRecord}
    (h : OpenOrder (pre ++ s :: post)) (before : AllSucceeded pre) (hs : s.state ≠ .succeeded)
    (hs' : s'.state ≠ .skipped) : OpenOrder (pre ++ s' :: post) := by
  refine ⟨around_of_split before (h.1.after hs), ?_⟩
  intro x hx
  have hrest : x ∈ pre ++ s :: post ∨ x = s' := by
    simp only [List.mem_append, List.mem_cons] at hx ⊢
    tauto
  rcases hrest with hx | rfl
  · exact h.2 x hx
  · exact hs'

theorem OpenOrder.closed {steps : List RunbookRunStepRecord} (h : OpenOrder steps)
    {f : RunbookRunStepRecord → RunbookRunStepRecord}
    (hf : ∀ s, StepBecomes s (f s) (closedState s.state)) : ClosedOrder (steps.map f) := by
  refine ⟨Around.map h.1 ?_ ?_, ?_⟩
  · intro s hs
    rw [(hf s).state, hs]
    rfl
  · intro s hs
    rw [(hf s).state, hs]
    rfl
  · intro x hx
    obtain ⟨s, hs, rfl⟩ := List.mem_map.1 hx
    rw [(hf s).state]
    have := h.2 s hs
    cases hstate : s.state <;> simp_all [closedState]

theorem OpenOrder.interrupted {steps : List RunbookRunStepRecord} (h : OpenOrder steps)
    {f : RunbookRunStepRecord → RunbookRunStepRecord}
    (hf : ∀ s, StepBecomes s (f s) (interruptedState s.state)) :
    OpenOrder (steps.map f) ∧ ∀ s ∈ steps.map f, s.state ≠ .waiting := by
  have hstates : ∀ s ∈ steps, (f s).state ≠ .skipped ∧ (f s).state ≠ .waiting := by
    intro s hs
    rw [(hf s).state]
    have := h.2 s hs
    cases hstate : s.state <;> simp_all [interruptedState]
  refine ⟨⟨Around.map h.1 ?_ ?_, ?_⟩, ?_⟩
  · intro s hs
    rw [(hf s).state, hs]
    rfl
  · intro s hs
    rw [(hf s).state, hs]
    rfl
  · simpa using fun s hs => (hstates s hs).1
  · simpa using fun s hs => (hstates s hs).2

/-- The turns keep the order of the steps. -/
theorem Turn.orderly {r r' : RunbookRun} {pre post : List RunbookRunStepRecord}
    {s s' : RunbookRunStepRecord} {runState : RunState} {stepState : StepState}
    (h : Orderly r) (turn : Turn r.state s.state runState stepState)
    (split : r.steps = pre ++ s :: post) (before : AllSucceeded pre)
    (last : runState = .succeeded → AllSucceeded post) (step : StepBecomes s s' stepState)
    (run : r'.state = runState) (steps : r'.steps = pre ++ s' :: post) : Orderly r' := by
  have hopen : isOpenRunbookRunState r.state = true := turn.isOpen
  have horder : OpenOrder (pre ++ s :: post) := split ▸ h.openOrder hopen
  have hafter : ∀ x ∈ post, x.state = .pending := horder.1.after turn.not_succeeded
  have hreplace : s'.state ≠ .skipped → OpenOrder (pre ++ s' :: post) :=
    horder.replace before turn.not_succeeded
  have hothers : ∀ x ∈ pre ++ s' :: post, x.state ≠ .waiting ∨ x = s' := by
    intro x hx
    simp only [List.mem_append, List.mem_cons] at hx
    rcases hx with hx | rfl | hx
    · simp [before x hx]
    · exact Or.inr rfl
    · simp [hafter x hx]
  have hwaiting : s'.state ≠ .waiting → ∀ x ∈ pre ++ s' :: post, x.state ≠ .waiting := by
    intro hs' x hx
    rcases hothers x hx with hx | rfl
    · exact hx
    · exact hs'
  unfold Orderly
  rw [run, steps]
  have hstate := step.state
  generalize r.state = runState₀ at turn
  generalize s.state = stepState₀ at turn
  cases turn with
  | start | succeed | confirm =>
      exact ⟨hreplace (by simp [hstate]), hwaiting (by simp [hstate])⟩
  | pause => exact ⟨hreplace (by simp [hstate]), s', by simp, hstate⟩
  | fail hx =>
      refine ⟨hreplace ?_, hwaiting ?_⟩ <;> rcases hx with rfl | rfl <;> simp [hstate]
  | finish =>
      intro x hx
      simp only [List.mem_append, List.mem_cons] at hx
      rcases hx with hx | rfl | hx
      · exact before x hx
      · exact hstate
      · exact last rfl x hx

/-- **Every move keeps a run orderly.** -/
theorem Move.orderly {r r' : RunbookRun} {es : List Entry} (h : Move r es r') (hr : Orderly r) :
    Orderly r' := by
  cases h with
  | turn turn split before last step started run steps =>
      exact turn.orderly hr split before last step run.state steps
  | approve state run steps =>
      rw [Orderly, state] at hr
      rw [Orderly, run.state, steps]
      exact ⟨openOrder_of_pending hr, fun s hs => by simp [hr s hs]⟩
  | failRun state run steps =>
      rw [Orderly, state] at hr
      rw [Orderly, run.state, steps]
      exact hr
  | finishWithoutStep state all run steps =>
      rw [Orderly, run.state, steps]
      exact all
  | resume state decided run steps =>
      rw [Orderly, state] at hr
      rw [Orderly, run.state, steps]
      exact hr
  | @markDone _ pre post s s' _ state split before unknown step run steps =>
      rw [Orderly, state, split] at hr
      have hs : s.state ≠ .succeeded := by simp [unknown]
      rw [Orderly, run.state, steps]
      refine ⟨hr.1.replace before hs (by simp [step.state]), ?_⟩
      intro x hx
      simp only [List.mem_append, List.mem_cons] at hx
      rcases hx with hx | rfl | hx
      · simp [before x hx]
      · simp [step.state]
      · simp [Around.after hr.1.1 hs x hx]
  | close isOpen closed step run steps =>
      have hclosed := (hr.openOrder isOpen).closed step
      rw [← steps] at hclosed
      rw [Orderly, run.state]
      rcases closed with rfl | rfl <;> exact hclosed
  | @refuse _ f state awaiting closed step run steps =>
      rw [Orderly, awaiting] at hr
      have hskipped : ∀ x ∈ r'.steps, x.state = .skipped := by
        intro x hx
        rw [steps] at hx
        obtain ⟨s, hs, rfl⟩ := List.mem_map.1 hx
        rw [(step s).state, hr s hs]
        rfl
      rw [Orderly, run.state]
      rcases closed with rfl | rfl
      · exact hskipped
      · exact ⟨around_of_forall_right hskipped, fun s hs => by simp [hskipped s hs]⟩
  | interrupt state step run steps =>
      rw [Orderly, state] at hr
      rw [Orderly, run.state, steps]
      exact hr.1.interrupted step

theorem Move.runOk {r r' : RunbookRun} {es : List Entry} (h : Move r es r') (hr : RunOk r) :
    RunOk r' := by
  have hlater := h.later.2.2
  refine ⟨h.orderly hr.orderly, ?_, ?_⟩
  · rw [hlater.map_eq fun _ _ h => h.id]
    exact hr.nodup
  · rw [hlater.map_eq fun _ _ h => h.position, ← hlater.length_eq]
    exact hr.positions

end WiseLabz.Runbook
