/-
**What the calls of the store leave of a run.**

Apart from the creation and the approval of a run, every call of the store leaves the frozen steps,
the starter and the flag of each run, and does not take up a run that is a request or is closed.

Main definitions:

* `Runbook.Untouched` — a run no step of which was executed;
* `Runbook.Keeps` — what such a call leaves of a run.

Main results:

* `Runbook.withinTransaction_keeps`, `Runbook.resumeRunbookRun_keeps` and the like — one lemma for
  each call;
* `Runbook.StoreCall.keeps` — **what a call leaves of the runs**.
-/

import WiseLabz.Runbook.Executor
import WiseLabz.Runbook.Revisions

set_option relaxedAutoImplicit false
set_option autoImplicit false

namespace WiseLabz.Runbook

open Lib

/-! ### What the calls of the store leave of a run -/

/-- The run is a request, or was one that is closed, and no step was executed. -/
def Untouched (r : RunbookRun) : Prop :=
  (r.state = .awaitingApproval ∨ r.state = .rejected ∨ r.state = .expired ∨ r.state = .cancelled) ∧
    ∀ s ∈ r.steps, s.state = .pending ∨ s.state = .skipped

/-- A run after a call other than the creation and the approval. -/
structure Keeps (r r' : RunbookRun) : Prop where
  id : r'.id = r.id
  startedBy : r'.startedBy = r.startedBy
  requiresApproval : r'.requiresApproval = r.requiresApproval
  frozen : r'.steps.map (·.toFrozenStep) = r.steps.map (·.toFrozenStep)
  terminal : isTerminalRunbookRunState r.state = true → r'.state = r.state
  untouched : Untouched r → Untouched r'

theorem Keeps.refl (r : RunbookRun) : Keeps r r := ⟨rfl, rfl, rfl, rfl, fun _ => rfl, fun h => h⟩

/-- A call that finds the run in another state than that of a request or a closed one. -/
theorem Keeps.of_active {r r' : RunbookRun} (hid : r'.id = r.id) (hby : r'.startedBy = r.startedBy)
    (happ : r'.requiresApproval = r.requiresApproval)
    (hfrozen : r'.steps.map (·.toFrozenStep) = r.steps.map (·.toFrozenStep))
    (hactive : r.state = .running ∨ r.state = .waitingManual ∨ r.state = .failed) : Keeps r r' where
  id := hid
  startedBy := hby
  requiresApproval := happ
  frozen := hfrozen
  terminal h := by rcases hactive with h' | h' | h' <;> rw [h'] at h <;> cases h
  untouched h := by
    rcases h.1 with h | h | h | h <;> rcases hactive with h' | h' | h' <;> rw [h] at h' <;> cases h'

/-- A call that closes the run, and skips what is pending. -/
theorem Keeps.of_closed {r r' : RunbookRun} {f : RunbookRunStepRecord → RunbookRunStepRecord}
    (hid : r'.id = r.id) (hby : r'.startedBy = r.startedBy)
    (happ : r'.requiresApproval = r.requiresApproval) (hsteps : r'.steps = r.steps.map f)
    (hf : ∀ s, (f s).toFrozenStep = s.toFrozenStep)
    (hskip : ∀ s, s.state = .pending ∨ s.state = .skipped →
      (f s).state = .pending ∨ (f s).state = .skipped)
    (hopen : isTerminalRunbookRunState r.state = false)
    (hstate : r'.state = .rejected ∨ r'.state = .expired ∨ r'.state = .cancelled) : Keeps r r' where
  id := hid
  startedBy := hby
  requiresApproval := happ
  frozen := by
    rw [hsteps, List.map_map]
    exact List.map_congr_left fun s _ => hf s
  terminal h := by
    rw [hopen] at h
    cases h
  untouched h := by
    refine ⟨Or.inr hstate, fun s hs => ?_⟩
    rw [hsteps] at hs
    obtain ⟨s₀, hs₀, rfl⟩ := List.mem_map.1 hs
    exact hskip s₀ (h.2 s₀ hs₀)

/-- A step that is rewritten does what it did. -/
theorem frozen_of_split {pre post : List RunbookRunStepRecord} {s s' : RunbookRunStepRecord}
    (h : s'.toFrozenStep = s.toFrozenStep) :
    (pre ++ s' :: post).map (·.toFrozenStep) = (pre ++ s :: post).map (·.toFrozenStep) := by
  rw [List.map_append, List.map_cons, h, List.map_append, List.map_cons]

/-- A guarded step update leaves what the steps do. -/
theorem updateRunbookRunStepRow_frozen {steps steps' : List RunbookRunStepRecord} {stepId : Bytes}
    {e : StepState} {u : StepUpdates}
    (h : updateRunbookRunStepRow steps stepId e u = .ok steps') :
    steps'.map (·.toFrozenStep) = steps.map (·.toFrozenStep) := by
  obtain ⟨pre, s, post, rfl, -, -, rfl⟩ := updateRunbookRunStepRow_eq_ok h
  exact frozen_of_split rfl

/-- Every run after a transaction on one run is from a run before it. -/
theorem withinTransaction_keeps {β : Type} {db db' : Db} {id : Bytes}
    {body : RunbookRun → Except StoreError (RunbookRun × β)} {b : β}
    (hbody : ∀ r r' b, body r = .ok (r', b) → Keeps r r')
    (h : withinTransaction db id body = .ok (b, db')) :
    ∀ r' ∈ db'.runs, ∃ r ∈ db.runs, Keeps r r' := by
  obtain ⟨r, r', hr, hwritten, rfl⟩ := withinTransaction_eq_ok.1 h
  intro x hx
  obtain ⟨x₀, hx₀, rfl⟩ := List.mem_map.1 hx
  split
  · exact ⟨r, (Db.run?_eq_some hr).1, hbody r r' b hwritten⟩
  · exact ⟨x₀, hx₀, .refl x₀⟩

theorem skipAwaitingApproval_skips (now : ℕ) (s : RunbookRunStepRecord)
    (h : s.state = .pending ∨ s.state = .skipped) :
    (skipAwaitingApprovalRunbookRunSteps now s).state = .pending ∨
      (skipAwaitingApprovalRunbookRunSteps now s).state = .skipped := by
  rw [skipAwaitingApprovalRunbookRunSteps]
  split
  · exact Or.inr rfl
  · exact h

theorem skipAwaitingApproval_frozen (now : ℕ) (s : RunbookRunStepRecord) :
    (skipAwaitingApprovalRunbookRunSteps now s).toFrozenStep = s.toFrozenStep := by
  rw [skipAwaitingApprovalRunbookRunSteps]
  split <;> rfl

theorem closeUnfinished_skips (now : ℕ) (s : RunbookRunStepRecord)
    (h : s.state = .pending ∨ s.state = .skipped) :
    (closeUnfinishedRunbookRunSteps now s).state = .pending ∨
      (closeUnfinishedRunbookRunSteps now s).state = .skipped := by
  rw [closeUnfinishedRunbookRunSteps]
  rcases h with h | h <;> simp [h]

theorem closeUnfinished_frozen (now : ℕ) (s : RunbookRunStepRecord) :
    (closeUnfinishedRunbookRunSteps now s).toFrozenStep = s.toFrozenStep := by
  rw [closeUnfinishedRunbookRunSteps]
  split <;> rfl

theorem interruptRunbookRunStep_frozen (now : ℕ) (s : RunbookRunStepRecord) :
    (interruptRunbookRunStep now s).toFrozenStep = s.toFrozenStep := by
  rw [interruptRunbookRunStep]
  split <;> rfl

theorem isTerminal_of_isOpen {state : RunState} (h : isOpenRunbookRunState state = true) :
    isTerminalRunbookRunState state = false := by
  cases state <;> first | rfl | cases h

/-- An open run that is no request. -/
theorem active_of_isOpen {state : RunState} (h : ¬isOpenRunbookRunState state = false)
    (hne : state ≠ .awaitingApproval) :
    state = .running ∨ state = .waitingManual ∨ state = .failed := by
  cases state with
  | running => exact Or.inl rfl
  | waitingManual => exact Or.inr (Or.inl rfl)
  | failed => exact Or.inr (Or.inr rfl)
  | awaitingApproval => exact absurd rfl hne
  | _ => exact absurd rfl h

section Calls

variable {db db' : Db} {id stepId userId : Bytes} {now : ℕ}

theorem rejectRunbookRun_keeps {r : RunbookRun}
    (h : rejectRunbookRun db id userId now = .ok (r, db')) :
    ∀ r' ∈ db'.runs, ∃ r ∈ db.runs, Keeps r r' := by
  refine withinTransaction_keeps (fun r r' b hwritten => ?_) h
  rw [ite_error_eq_ok] at hwritten
  obtain ⟨hstate, hwritten⟩ := hwritten
  obtain ⟨rfl, -⟩ := Prod.mk.inj (Except.ok.inj hwritten)
  refine .of_closed rfl rfl rfl rfl (skipAwaitingApproval_frozen _) (skipAwaitingApproval_skips _)
    ?_ (Or.inl rfl)
  rw [not_not.1 hstate]
  rfl

theorem cancelRunbookRun_keeps {u : Unit}
    (h : cancelRunbookRun db id userId now = .ok (u, db')) :
    ∀ r' ∈ db'.runs, ∃ r ∈ db.runs, Keeps r r' := by
  refine withinTransaction_keeps (fun r r' b hwritten => ?_) h
  rw [ite_error_eq_ok] at hwritten
  obtain ⟨hopen, hwritten⟩ := hwritten
  obtain ⟨rfl, -⟩ := Prod.mk.inj (Except.ok.inj hwritten)
  exact .of_closed rfl rfl rfl rfl (closeUnfinished_frozen _) (closeUnfinished_skips _)
    (isTerminal_of_isOpen (by simpa using hopen)) (Or.inr (Or.inr rfl))

theorem updateRunbookRun_keeps {expectedState : RunState} {updates : RunUpdates}
    {row : RunbookRunRecord}
    (h : updateRunbookRun db id expectedState updates now = .ok (row, db')) :
    ∀ r' ∈ db'.runs, ∃ r ∈ db.runs, Keeps r r' := by
  rw [updateRunbookRun, ite_error_eq_ok, ite_error_eq_ok, ite_error_eq_ok] at h
  obtain ⟨-, hawaiting, -, h⟩ := h
  refine withinTransaction_keeps (fun r r' b hwritten => ?_) h
  rw [ite_error_eq_ok, ite_error_eq_ok, bind_eq_ok] at hwritten
  obtain ⟨hstate, hopen, r₁, hr₁, hwritten⟩ := hwritten
  obtain ⟨-, rfl⟩ := updateRunbookRunRow_eq_ok hr₁
  obtain ⟨rfl, -⟩ := Prod.mk.inj (pure_eq_ok.1 hwritten)
  refine .of_active rfl rfl rfl rfl (active_of_isOpen hopen ?_)
  rw [not_not.1 hstate]
  exact hawaiting

theorem updateRunbookRunStep_keeps {expectedState : StepState} {updates : StepUpdates}
    {row : RunbookRunStepRecord}
    (h : updateRunbookRunStep db id stepId expectedState updates now = .ok (row, db')) :
    ∀ r' ∈ db'.runs, ∃ r ∈ db.runs, Keeps r r' := by
  rw [updateRunbookRunStep, ite_error_eq_ok] at h
  refine withinTransaction_keeps (fun r r' b hwritten => ?_) h.2
  rw [ite_error_eq_ok, bind_eq_ok] at hwritten
  obtain ⟨hstate, steps, hsteps, hwritten⟩ := hwritten
  rw [bind_eq_ok] at hwritten
  obtain ⟨s, -, hwritten⟩ := hwritten
  obtain ⟨rfl, -⟩ := Prod.mk.inj (pure_eq_ok.1 hwritten)
  exact .of_active rfl rfl rfl (updateRunbookRunStepRow_frozen hsteps) (Or.inl (not_not.1 hstate))

theorem confirmRunbookRunStep_keeps {u : Unit}
    (h : confirmRunbookRunStep db id stepId userId now = .ok (u, db')) :
    ∀ r' ∈ db'.runs, ∃ r ∈ db.runs, Keeps r r' := by
  refine withinTransaction_keeps (fun r r' b hwritten => ?_) h
  rw [ite_error_eq_ok, ite_error_eq_ok] at hwritten
  obtain ⟨hstate, -, hwritten⟩ := hwritten
  obtain ⟨rfl, -⟩ := Prod.mk.inj (Except.ok.inj hwritten)
  refine .of_active rfl rfl rfl ?_ (Or.inr (Or.inl (not_not.1 hstate)))
  rw [List.map_map]
  refine List.map_congr_left fun s _ => ?_
  dsimp only [Function.comp_apply]
  split <;> rfl

theorem transitionRunbookRunWithStep_keeps {expectedStepState : StepState}
    {runUpdates : RunUpdates} {stepUpdates : StepUpdates}
    {rows : RunbookRunRecord × RunbookRunStepRecord}
    (h : transitionRunbookRunWithStep db id stepId expectedStepState runUpdates stepUpdates now =
      .ok (rows, db')) : ∀ r' ∈ db'.runs, ∃ r ∈ db.runs, Keeps r r' := by
  refine withinTransaction_keeps (fun r r' b hwritten => ?_) h
  rw [ite_error_eq_ok, bind_eq_ok] at hwritten
  obtain ⟨hstate, steps, hsteps, hwritten⟩ := hwritten
  rw [ite_error_eq_ok, bind_eq_ok] at hwritten
  obtain ⟨-, r₁, hr₁, hwritten⟩ := hwritten
  obtain ⟨-, rfl⟩ := updateRunbookRunRow_eq_ok hr₁
  rw [bind_eq_ok] at hwritten
  obtain ⟨s, -, hwritten⟩ := hwritten
  obtain ⟨rfl, -⟩ := Prod.mk.inj (pure_eq_ok.1 hwritten)
  exact .of_active rfl rfl rfl (updateRunbookRunStepRow_frozen hsteps) (Or.inl (not_not.1 hstate))

theorem resumedRunbookRunSteps_frozen {steps steps' : List RunbookRunStepRecord} {markDone : Bool}
    (h : resumedRunbookRunSteps steps stepId markDone now = .ok steps') :
    steps'.map (·.toFrozenStep) = steps.map (·.toFrozenStep) := by
  rw [resumedRunbookRunSteps] at h
  split at h
  · rw [Except.ok.inj h]
  · split at h
    · cases h
    · rw [ite_error_eq_ok] at h
      obtain ⟨-, h⟩ := h
      split at h
      · rw [Except.ok.inj h]
      · rw [ite_error_eq_ok] at h
        exact updateRunbookRunStepRow_frozen h.2

theorem resumeRunbookRun_keeps {expectedUpdatedAt : ℕ} {markDone : Bool} {r : RunbookRun}
    (h : resumeRunbookRun db id expectedUpdatedAt stepId markDone userId now = .ok (r, db')) :
    ∀ r' ∈ db'.runs, ∃ r ∈ db.runs, Keeps r r' := by
  refine withinTransaction_keeps (fun r r' b hwritten => ?_) h
  rw [ite_error_eq_ok, bind_eq_ok] at hwritten
  obtain ⟨hfound, steps, hsteps, hwritten⟩ := hwritten
  rw [bind_eq_ok] at hwritten
  obtain ⟨r₁, hr₁, hwritten⟩ := hwritten
  obtain ⟨hstate, rfl⟩ := updateRunbookRunRow_eq_ok hr₁
  obtain ⟨rfl, -⟩ := Prod.mk.inj (pure_eq_ok.1 hwritten)
  exact .of_active rfl rfl rfl (resumedRunbookRunSteps_frozen hsteps) (Or.inr (Or.inr hstate))

end Calls

theorem interruptRunbookRun_keeps (clock : Bytes → ℕ) (r : RunbookRun) :
    Keeps r (interruptRunbookRun clock r) := by
  rw [interruptRunbookRun]
  split
  · next hstate =>
      refine .of_active rfl rfl rfl ?_ (Or.inl hstate)
      rw [List.map_map]
      exact List.map_congr_left fun s _ => interruptRunbookRunStep_frozen _ s
  · exact .refl r

theorem expireOpenRunbookRun_keeps (cutoff : ℕ) (clock : Bytes → ℕ) (r : RunbookRun) :
    Keeps r (expireOpenRunbookRun cutoff clock r) := by
  rw [expireOpenRunbookRun]
  split
  · next hstate =>
      refine .of_closed rfl rfl rfl rfl (closeUnfinished_frozen _) (closeUnfinished_skips _) ?_
        (Or.inr (Or.inl rfl))
      rcases hstate.1 with h | h <;> rw [h] <;> rfl
  · exact .refl r

theorem expireAwaitingApprovalRunbookRun_keeps (cutoff : ℕ) (clock : Bytes → ℕ) (r : RunbookRun) :
    Keeps r (expireAwaitingApprovalRunbookRun cutoff clock r) := by
  rw [expireAwaitingApprovalRunbookRun]
  split
  · next hstate =>
      refine .of_closed rfl rfl rfl rfl (skipAwaitingApproval_frozen _)
        (skipAwaitingApproval_skips _) ?_ (Or.inr (Or.inl rfl))
      rw [hstate.1]
      rfl
  · exact .refl r

/-- A call that neither creates nor approves a run. -/
def StoreCall.isOther : StoreCall → Bool
  | .create .. | .approve .. => false
  | _ => true

/-- **What a call leaves of the runs**: each of them is from one before it. -/
theorem StoreCall.keeps {call : StoreCall} {clock : Bytes → ℕ} {db db' : Db}
    (hother : call.isOther = true) (h : call.run db clock = .ok db') :
    ∀ r' ∈ db'.runs, ∃ r ∈ db.runs, Keeps r r' := by
  have hmap : ∀ {β : Type} {x : Except StoreError (β × Db)}, x.map (·.2) = .ok db' →
      ∃ b, x = .ok (b, db') := by
    intro β x hx
    cases x with
    | error e => cases hx
    | ok p =>
        obtain ⟨b, db₁⟩ := p
        obtain rfl : db₁ = db' := Except.ok.inj hx
        exact ⟨b, rfl⟩
  have hruns : ∀ {f : RunbookRun → RunbookRun}, (∀ r, Keeps r (f r)) →
      ∀ r' ∈ db.runs.map f, ∃ r ∈ db.runs, Keeps r r' := by
    intro f hf r' hr'
    obtain ⟨r, hr, rfl⟩ := List.mem_map.1 hr'
    exact ⟨r, hr, hf r⟩
  cases call with
  | create | approve => cases hother
  | reject => exact rejectRunbookRun_keeps (hmap h).choose_spec
  | update => exact updateRunbookRun_keeps (hmap h).choose_spec
  | updateStep => exact updateRunbookRunStep_keeps (hmap h).choose_spec
  | confirm => exact confirmRunbookRunStep_keeps (hmap h).choose_spec
  | pause | finish => exact transitionRunbookRunWithStep_keeps (hmap h).choose_spec
  | fail =>
      obtain ⟨rows, hfail⟩ := hmap h
      rw [failRunbookRunStep, ite_error_eq_ok] at hfail
      exact transitionRunbookRunWithStep_keeps hfail.2
  | cancel => exact cancelRunbookRun_keeps (hmap h).choose_spec
  | resume => exact resumeRunbookRun_keeps (hmap h).choose_spec
  | resumeMarkingStepDone =>
      obtain ⟨r, hresume⟩ := hmap h
      rw [resumeRunbookRunMarkingStepDone, ite_error_eq_ok] at hresume
      exact resumeRunbookRun_keeps hresume.2
  | interrupt =>
      obtain rfl := Except.ok.inj h
      exact hruns (interruptRunbookRun_keeps clock)
  | expireOpen before =>
      obtain rfl := Except.ok.inj h
      cases before with
      | none => exact fun r hr => ⟨r, hr, .refl r⟩
      | some cutoff => exact hruns (expireOpenRunbookRun_keeps cutoff clock)
  | expireAwaitingApproval before =>
      obtain rfl := Except.ok.inj h
      cases before with
      | none => exact fun r hr => ⟨r, hr, .refl r⟩
      | some cutoff => exact hruns (expireAwaitingApprovalRunbookRun_keeps cutoff clock)
  | prune before =>
      obtain rfl := Except.ok.inj h
      cases before with
      | none => exact fun r hr => ⟨r, hr, .refl r⟩
      | some cutoff => exact fun r hr => ⟨r, (List.mem_filter.1 hr).1, .refl r⟩

end WiseLabz.Runbook
