/-
**The calls of the store are moves.**

Each call that succeeds on an orderly run makes one move of it and leaves every other run alone; the
calls that go through all runs make a move of each run they change.  The calls that start a step or
pause on it, and the one that ends a run without a step, are moves only for a caller who knows that
the steps before have succeeded: the executor does, from what it has read.

Main definitions:

* `Runbook.Moves` — the tables after one move of a run;
* `Runbook.EarlierSucceeded` — the steps before a step have succeeded.

Main results:

* `Runbook.createRunbookRunWithState_eq_ok` — a new run is orderly;
* `Runbook.updateRunbookRunStep_start_moves`, `Runbook.finishRunbookRun_moves` and the like — one
  lemma for each call.
-/

import WiseLabz.Runbook.Moves

set_option relaxedAutoImplicit false
set_option autoImplicit false

namespace WiseLabz.Runbook

open Lib

/-! ### One move -/

/-- The tables after one move of a run. -/
def Moves (db : Db) (id : Bytes) (es : List Entry) (db' : Db) : Prop :=
  ∃ r r', db.run? id = some r ∧ Move r es r' ∧ db' = db.put id r'

/-- The steps before the step have succeeded. -/
def EarlierSucceeded (r : RunbookRun) (stepId : Bytes) : Prop :=
  ∃ pre s post, r.steps = pre ++ s :: post ∧ s.id = stepId ∧ AllSucceeded pre

/-- The run that a caller knows to be orderly. -/
def Db.Ok (db : Db) (id : Bytes) : Prop := ∀ r, db.run? id = some r → RunOk r

/-! ### What a write adds to the history -/

/-- What the tables tell about a run before and after a step. -/
def changesOf (db db' : Db) (id : Bytes) : List Entry :=
  match db.run? id, db'.run? id with
  | some r, some r' => changes r r'
  | _, _ => []

@[simp] theorem changes_self (r : RunbookRun) : changes r r = [] := by
  simp [changes, stepChange]

@[simp] theorem changesOf_self (db : Db) (id : Bytes) : changesOf db db id = [] := by
  unfold changesOf
  cases db.run? id <;> simp

/-- The entries of a write that replaces one step. -/
theorem changes_split {r r' : RunbookRun} {pre post : List RunbookRunStepRecord}
    {s s' : RunbookRunStepRecord} (hsplit : r.steps = pre ++ s :: post)
    (hsplit' : r'.steps = pre ++ s' :: post) :
    changes r r' = (if r'.state = r.state then [] else [.moved r'.state r'.updatedAt]) ++
      stepChange r'.updatedAt s s' := by
  rw [changes, hsplit, hsplit', List.zipWith_append (by rfl)]
  simp [stepChange]

/-- The entries of a write that leaves the steps. -/
theorem changes_same {r r' : RunbookRun} (hsteps : r'.steps = r.steps) :
    changes r r' = if r'.state = r.state then [] else [.moved r'.state r'.updatedAt] := by
  simp [changes, stepChange, hsteps]

/-- The entries of a write that rewrites every step. -/
theorem changes_map {r r' : RunbookRun} {f : RunbookRunStepRecord → RunbookRunStepRecord}
    (hsteps : r'.steps = r.steps.map f) :
    changes r r' = (if r'.state = r.state then [] else [.moved r'.state r'.updatedAt]) ++
      r.steps.flatMap fun s => stepChange r'.updatedAt s (f s) := by
  rw [changes, hsteps, List.zipWith_map_right, List.zipWith_self, List.flatMap]

/-! ### Field updates -/

theorem StepUpdates.set_becomes {u : StepUpdates} {x : StepState} (hu : u.state = some x)
    (s : RunbookRunStepRecord) : StepBecomes s (u.set s) x :=
  ⟨rfl, rfl, rfl, by simp [StepUpdates.set, hu]⟩

theorem RunUpdates.set_becomes {u : RunUpdates} {x : RunState} (hu : u.state = some x)
    {r r' : RunbookRun} {now : ℕ} (hid : r'.id = r.id) :
    Becomes r (u.set r' (nextRunbookRunTimestamp r.updatedAt now)) x :=
  ⟨hid, lt_nextRunbookRunTimestamp _ _, by simp [RunUpdates.set, hu]⟩

/-- The written step, read again. -/
theorem readRunbookRunStep_eq_ok {r : RunbookRun} {stepId : Bytes} {s : RunbookRunStepRecord}
    (h : readRunbookRunStep r stepId = .ok s) : s ∈ r.steps ∧ s.id = stepId := by
  unfold readRunbookRunStep at h
  split at h
  · cases h
  · next s' hs' =>
      cases h
      exact ⟨List.mem_of_find?_eq_some hs', by simpa using List.find?_some hs'⟩

/-- A step with the id of one in the middle is that one. -/
theorem eq_of_mem_split {pre post : List RunbookRunStepRecord} {s x : RunbookRunStepRecord}
    (hnodup : ((pre ++ s :: post).map (·.id)).Nodup) (hx : x ∈ pre ++ s :: post)
    (hid : x.id = s.id) : x = s := by
  obtain ⟨pre', post', hsplit⟩ := List.append_of_mem hx
  exact (split_unique hnodup hsplit hid.symm).2.1.symm

/-- The ids of the steps after one of them was written. -/
theorem nodup_replace {pre post : List RunbookRunStepRecord} {s s' : RunbookRunStepRecord}
    {x : StepState} (hnodup : ((pre ++ s :: post).map (·.id)).Nodup) (h : StepBecomes s s' x) :
    ((pre ++ s' :: post).map (·.id)).Nodup := by
  simpa [h.id] using hnodup

/-- In an orderly open run, what is before a step that is neither succeeded nor pending has
succeeded. -/
theorem Orderly.before {r : RunbookRun} (h : Orderly r)
    (hopen : isOpenRunbookRunState r.state = true) {pre post : List RunbookRunStepRecord}
    {s : RunbookRunStepRecord} (hsplit : r.steps = pre ++ s :: post) (hs : s.state ≠ .pending) :
    AllSucceeded pre :=
  Around.before (hsplit ▸ (h.openOrder hopen).1) hs

/-- The place of a step that the caller knows. -/
theorem EarlierSucceeded.before {r : RunbookRun} {stepId : Bytes} (h : EarlierSucceeded r stepId)
    (hr : RunOk r) {pre post : List RunbookRunStepRecord} {s : RunbookRunStepRecord}
    (hsplit : r.steps = pre ++ s :: post) (hs : s.id = stepId) : AllSucceeded pre := by
  obtain ⟨pre', s', post', hsplit', hs', hpre'⟩ := h
  have hnodup := hr.nodup
  rw [hsplit'] at hnodup hsplit
  obtain ⟨rfl, -, -⟩ := split_unique hnodup hsplit (hs'.trans hs.symm)
  exact hpre'

theorem EarlierSucceeded.later {r r' : RunbookRun} {stepId : Bytes}
    (h : EarlierSucceeded r stepId) (hlater : StepsLater r.steps r'.steps) :
    EarlierSucceeded r' stepId := by
  obtain ⟨pre, s, post, hsplit, hs, hpre⟩ := h
  rw [hsplit, StepsLater, forall₂_append_cons] at hlater
  obtain ⟨pre', s', post', hsplit', hpre', hs', -⟩ := hlater
  exact ⟨pre', s', post', hsplit', hs'.id.trans hs, StepsLater.allSucceeded hpre' hpre⟩

/-- The first unfinished step and what is before it. -/
theorem firstUnfinishedRunbookRunStep_eq_some {steps : List RunbookRunStepRecord}
    {s : RunbookRunStepRecord} (h : firstUnfinishedRunbookRunStep steps = some s) :
    ∃ pre post, steps = pre ++ s :: post ∧ s.state ≠ .succeeded ∧ AllSucceeded pre := by
  obtain ⟨hs, pre, post, hsplit, hpre⟩ := List.find?_eq_some_iff_append.1 h
  refine ⟨pre, post, hsplit, by simpa using hs, ?_⟩
  intro x hx
  simpa using hpre x hx

theorem firstUnfinishedRunbookRunStep_eq_none {steps : List RunbookRunStepRecord} :
    firstUnfinishedRunbookRunStep steps = none ↔ AllSucceeded steps := by
  simp [firstUnfinishedRunbookRunStep, AllSucceeded]

/-- The first unfinished step is where the steps before it have succeeded. -/
theorem firstUnfinishedRunbookRunStep_split {pre post : List RunbookRunStepRecord}
    {s : RunbookRunStepRecord} (hpre : AllSucceeded pre) (hs : s.state ≠ .succeeded) :
    firstUnfinishedRunbookRunStep (pre ++ s :: post) = some s := by
  refine List.find?_eq_some_iff_append.2 ⟨by simpa using hs, pre, post, rfl, ?_⟩
  intro x hx
  simpa using hpre x hx

/-! ### New runs -/

theorem newRunbookRunSteps_pending {steps : List FrozenStep} {newStepIds : List Bytes} :
    ∀ s ∈ newRunbookRunSteps steps newStepIds, s.state = .pending := by
  intro s hs
  obtain ⟨i, hi, rfl⟩ := List.mem_mapIdx.1 hs
  rfl

theorem newRunbookRunSteps_ids {steps : List FrozenStep} {newStepIds : List Bytes}
    (hlength : newStepIds.length = steps.length) :
    (newRunbookRunSteps steps newStepIds).map (·.id) = newStepIds := by
  rw [newRunbookRunSteps, List.mapIdx_eq_zipIdx_map, List.map_map]
  rw [show (RunbookRunStepRecord.id ∘ fun a : (FrozenStep × Bytes) × ℕ => _) =
    Prod.snd ∘ Prod.fst from rfl, ← List.map_map, List.zipIdx_map_fst, List.map_snd_zip (by omega)]

theorem newRunbookRunSteps_positions {steps : List FrozenStep} {newStepIds : List Bytes} :
    (newRunbookRunSteps steps newStepIds).map (·.position) =
      List.range (newRunbookRunSteps steps newStepIds).length := by
  rw [newRunbookRunSteps, List.mapIdx_eq_zipIdx_map, List.map_map]
  rw [show (RunbookRunStepRecord.position ∘ fun a : (FrozenStep × Bytes) × ℕ => _) =
    Prod.snd from rfl, List.zipIdx_map_snd]
  simp [List.range_eq_range']

/-- **A new run is orderly**, and nothing else changes. -/
theorem createRunbookRunWithState_eq_ok {db db' : Db} {title : Option Bytes} {newId : Bytes}
    {newStepIds : List Bytes} {runbookId startedBy : Bytes} {steps : List FrozenStep}
    {initialState : RunState} {requiresApproval : Bool} {now : ℕ} {r : RunbookRun}
    (h : createRunbookRunWithState db title newId newStepIds runbookId startedBy steps initialState
      requiresApproval now = .ok (r, db')) :
    RunOk r ∧ r.id = newId ∧ db.run? newId = none ∧ db' = ⟨db.runs ++ [r]⟩ ∧
      ∀ s ∈ r.steps, s.state = .pending := by
  unfold createRunbookRunWithState at h
  rw [ite_error_eq_ok, ite_error_eq_ok, ite_error_eq_ok] at h
  obtain ⟨-, hinitial, -, h⟩ := h
  split at h
  · cases h
  · split at h
    · cases h
    · rw [ite_error_eq_ok] at h
      obtain ⟨hfree, h⟩ := h
      simp only [not_or, not_not] at hfree
      obtain ⟨hid, hlength, hnodup, -⟩ := hfree
      obtain ⟨rfl, rfl⟩ := Prod.mk.inj (Except.ok.inj h)
      have hpending : ∀ s ∈ newRunbookRunSteps steps newStepIds, s.state = .pending :=
        newRunbookRunSteps_pending
      refine ⟨⟨?_, ?_, newRunbookRunSteps_positions⟩, rfl, by simpa using hid, rfl, hpending⟩
      · by_cases hstate : initialState = .running
        · subst hstate
          exact ⟨openOrder_of_pending hpending, fun s hs => by simp [hpending s hs]⟩
        · have hawaiting : initialState = .awaitingApproval := by
            by_contra hne
            exact hinitial ⟨hstate, hne⟩
          subst hawaiting
          exact hpending
      · rw [newRunbookRunSteps_ids hlength]
        exact hnodup

/-! ### Calls on one run -/

section Calls

variable {db db' : Db} {runId stepId : Bytes} {now : ℕ}

theorem approveRunbookRun_moves {userId : Bytes} {r : RunbookRun}
    (h : approveRunbookRun db runId userId now = .ok (r, db')) : Moves db runId [] db' := by
  obtain ⟨r, r', hr, hbody, rfl⟩ := withinTransaction_eq_ok.1 h
  rw [ite_error_eq_ok] at hbody
  obtain ⟨hstate, hbody⟩ := hbody
  obtain ⟨rfl, -⟩ := Prod.mk.inj (Except.ok.inj hbody)
  refine ⟨r, _, hr, ?_, rfl⟩
  exact .approve (not_not.1 hstate) ⟨rfl, lt_nextRunbookRunTimestamp _ _, rfl⟩ rfl

theorem skipAwaitingApprovalRunbookRunSteps_becomes (now : ℕ) (s : RunbookRunStepRecord) :
    StepBecomes s (skipAwaitingApprovalRunbookRunSteps now s) (refusedState s.state) := by
  unfold skipAwaitingApprovalRunbookRunSteps
  split
  · next h => exact ⟨rfl, rfl, rfl, by rw [h]; rfl⟩
  · next h => exact ⟨rfl, rfl, rfl, by cases hs : s.state <;> simp_all [refusedState]⟩

theorem closeUnfinishedRunbookRunSteps_becomes (now : ℕ) (s : RunbookRunStepRecord) :
    StepBecomes s (closeUnfinishedRunbookRunSteps now s) (closedState s.state) := by
  unfold closeUnfinishedRunbookRunSteps
  split
  case h_1 h => exact ⟨rfl, rfl, rfl, by rw [h]; rfl⟩
  case h_2 h => exact ⟨rfl, rfl, rfl, by rw [h]; rfl⟩
  case h_3 h => exact ⟨rfl, rfl, rfl, by rw [h]; rfl⟩
  case h_4 => exact ⟨rfl, rfl, rfl, by cases hs : s.state <;> simp_all [closedState]⟩

theorem interruptRunbookRunStep_becomes (now : ℕ) (s : RunbookRunStepRecord) :
    StepBecomes s (interruptRunbookRunStep now s) (interruptedState s.state) := by
  unfold interruptRunbookRunStep
  split
  case h_1 h => exact ⟨rfl, rfl, rfl, by rw [h]; rfl⟩
  case h_2 h => exact ⟨rfl, rfl, rfl, by rw [h]; rfl⟩
  case h_3 => exact ⟨rfl, rfl, rfl, by cases hs : s.state <;> simp_all [interruptedState]⟩

theorem rejectRunbookRun_moves {userId : Bytes} {r : RunbookRun}
    (h : rejectRunbookRun db runId userId now = .ok (r, db')) : Moves db runId [] db' := by
  obtain ⟨r, r', hr, hbody, rfl⟩ := withinTransaction_eq_ok.1 h
  rw [ite_error_eq_ok] at hbody
  obtain ⟨hstate, hbody⟩ := hbody
  obtain ⟨rfl, -⟩ := Prod.mk.inj (Except.ok.inj hbody)
  refine ⟨r, _, hr, ?_, rfl⟩
  exact .refuse (not_not.1 hstate) (Or.inl rfl) (skipAwaitingApprovalRunbookRunSteps_becomes _)
    ⟨rfl, lt_nextRunbookRunTimestamp _ _, rfl⟩ rfl

theorem cancelRunbookRun_moves {cancelledBy : Bytes}
    (h : cancelRunbookRun db runId cancelledBy now = .ok ((), db')) : Moves db runId [] db' := by
  obtain ⟨r, r', hr, hbody, rfl⟩ := withinTransaction_eq_ok.1 h
  rw [ite_error_eq_ok] at hbody
  obtain ⟨hopen, hbody⟩ := hbody
  obtain ⟨rfl, -⟩ := Prod.mk.inj (Except.ok.inj hbody)
  refine ⟨r, _, hr, ?_, rfl⟩
  exact .close (by simpa using hopen) (Or.inl rfl) (closeUnfinishedRunbookRunSteps_becomes _)
    ⟨rfl, lt_nextRunbookRunTimestamp _ _, rfl⟩ rfl

/-- What `UpdateRunbookRun` has found and written. -/
theorem updateRunbookRun_eq_ok {expectedState x : RunState} {u : RunUpdates} (hu : u.state = some x)
    {row : RunbookRunRecord} (h : updateRunbookRun db runId expectedState u now = .ok (row, db')) :
    ∃ r r', db.run? runId = some r ∧ r.state = expectedState ∧ Becomes r r' x ∧
      r'.steps = r.steps ∧ db' = db.put runId r' := by
  rw [updateRunbookRun, ite_error_eq_ok, ite_error_eq_ok, ite_error_eq_ok] at h
  obtain ⟨-, -, -, h⟩ := h
  obtain ⟨r, r', hr, hbody, rfl⟩ := withinTransaction_eq_ok.1 h
  rw [ite_error_eq_ok, ite_error_eq_ok, bind_eq_ok] at hbody
  obtain ⟨hstate, -, r₁, hr₁, hbody⟩ := hbody
  obtain ⟨rfl, -⟩ := Prod.mk.inj (Except.ok.inj hbody)
  obtain ⟨-, rfl⟩ := updateRunbookRunRow_eq_ok hr₁
  exact ⟨r, _, hr, not_not.1 hstate, RunUpdates.set_becomes (by simpa using hu) rfl, rfl, rfl⟩

theorem updateRunbookRun_fail_moves {u : RunUpdates} (hu : u.state = some .failed)
    {row : RunbookRunRecord} (h : updateRunbookRun db runId .running u now = .ok (row, db')) :
    Moves db runId [] db' := by
  obtain ⟨r, r', hr, hstate, hrun, hsteps, rfl⟩ := updateRunbookRun_eq_ok hu h
  exact ⟨r, r', hr, .failRun hstate hrun hsteps, rfl⟩

/-- A run ends without a step for a caller who knows that all steps have succeeded. -/
theorem updateRunbookRun_succeed_moves {u : RunUpdates} (hu : u.state = some .succeeded)
    (hall : ∀ r, db.run? runId = some r → AllSucceeded r.steps)
    {row : RunbookRunRecord} (h : updateRunbookRun db runId .running u now = .ok (row, db')) :
    Moves db runId [] db' := by
  obtain ⟨r, r', hr, hstate, hrun, hsteps, rfl⟩ := updateRunbookRun_eq_ok hu h
  exact ⟨r, r', hr, .finishWithoutStep hstate (hall r hr) hrun hsteps, rfl⟩

/-- What `UpdateRunbookRunStep` has found and written, and the step it returns. -/
theorem updateRunbookRunStep_eq_ok {e x : StepState} {u : StepUpdates} (hu : u.state = some x)
    (hok : db.Ok runId) {started : RunbookRunStepRecord}
    (h : updateRunbookRunStep db runId stepId e u now = .ok (started, db')) :
    ∃ r r' pre s post, db.run? runId = some r ∧ r.state = .running ∧
      r.steps = pre ++ s :: post ∧ s.id = stepId ∧ s.state = e ∧ StepBecomes s started x ∧
      (u = { state := some .running } → startable e = true →
        started.startedAt = some r'.updatedAt) ∧
      Becomes r r' .running ∧ r'.steps = pre ++ started :: post ∧ db' = db.put runId r' := by
  rw [updateRunbookRunStep, ite_error_eq_ok] at h
  obtain ⟨r, r', hr, hbody, rfl⟩ := withinTransaction_eq_ok.1 h.2
  rw [ite_error_eq_ok, bind_eq_ok] at hbody
  obtain ⟨hstate, steps, hsteps, hbody⟩ := hbody
  rw [bind_eq_ok] at hbody
  obtain ⟨read, hread, hbody⟩ := hbody
  obtain ⟨rfl, rfl⟩ := Prod.mk.inj (Except.ok.inj hbody)
  obtain ⟨pre, s, post, hsplit, hid, he, rfl⟩ := updateRunbookRunStepRow_eq_ok hsteps
  have hbecomes : StepBecomes s ((normalizedRunbookRunStepUpdates u e
      (nextRunbookRunTimestamp r.updatedAt now)).set s) x :=
    StepUpdates.set_becomes (by simpa using hu) s
  have hnodup := nodup_replace (hsplit ▸ (hok r hr).nodup) hbecomes
  obtain ⟨hmem, hread⟩ := readRunbookRunStep_eq_ok hread
  have hrow : read = (normalizedRunbookRunStepUpdates u e
      (nextRunbookRunTimestamp r.updatedAt now)).set s :=
    eq_of_mem_split hnodup hmem (hread.trans (hbecomes.id.trans hid).symm)
  rw [hrow]
  refine ⟨r, _, pre, s, post, hr, not_not.1 hstate, hsplit, hid, he, hbecomes, ?_, ?_, ?_, rfl⟩
  rotate_left
  · exact ⟨rfl, lt_nextRunbookRunTimestamp _ _, not_not.1 hstate⟩
  · rfl
  rintro rfl hstartable
  have hexpected : e = .pending ∨ e = .failed ∨ e = .unknown := by
    cases e <;> simp [startable] at hstartable ⊢
  simp [normalizedRunbookRunStepUpdates, StepUpdates.set, hexpected]

/-- A step is started by a caller who knows that the steps before it have succeeded. -/
theorem updateRunbookRunStep_start_moves {e : StepState} (he : startable e = true)
    (hok : db.Ok runId) (hbefore : ∀ r, db.run? runId = some r → EarlierSucceeded r stepId)
    {started : RunbookRunStepRecord}
    (h : updateRunbookRunStep db runId stepId e { state := some .running } now =
      .ok (started, db')) :
    Moves db runId [] db' ∧ started.id = stepId ∧ ∃ revision,
      started.startedAt = some revision ∧
        changesOf db db' runId = [.recorded stepId .running revision] := by
  obtain ⟨r, r', pre, s, post, hr, hstate, hsplit, hid, rfl, hstep, hstarted, hrun, hsteps, rfl⟩ :=
    updateRunbookRunStep_eq_ok rfl hok h
  have hpre := (hbefore r hr).before (hok r hr) hsplit hid
  have hturn : Turn r.state s.state .running .running := hstate ▸ .start he
  refine ⟨⟨r, r', hr, .turn hturn hsplit hpre (by simp) hstep (fun _ => hstarted rfl he) hrun
    hsteps, rfl⟩, hstep.id.trans hid, r'.updatedAt, hstarted rfl he, ?_⟩
  have hchanged : StepState.running ≠ s.state := by
    intro h
    rw [← h] at he
    simp [startable] at he
  rw [changesOf, hr, Db.run?_put hr (hrun.id.trans (Db.run?_eq_some hr).2), if_pos rfl]
  simp only [changes_split hsplit hsteps, hrun.state, hstate, if_pos, List.nil_append, stepChange,
    hstep.state, if_neg hchanged, hid]

theorem updateRunbookRunStep_succeed_moves (hok : db.Ok runId) {done : RunbookRunStepRecord}
    (h : updateRunbookRunStep db runId stepId .running { state := some .succeeded } now =
      .ok (done, db')) : Moves db runId [] db' := by
  obtain ⟨r, r', pre, s, post, hr, hstate, hsplit, hid, hs, hstep, -, hrun, hsteps, rfl⟩ :=
    updateRunbookRunStep_eq_ok rfl hok h
  have hpre := (hok r hr).orderly.before (by rw [hstate]; rfl) hsplit (by simp [hs])
  have hturn : Turn r.state s.state .running .succeeded := by
    rw [hstate, hs]
    exact .succeed
  exact ⟨r, r', hr, .turn hturn hsplit hpre (by simp) hstep (by simp) hrun hsteps, rfl⟩

/-- A step update and a run update together are a turn of the step under way. -/
theorem transitionRunbookRunWithStep_moves {e y : StepState} {x : RunState} {u : RunUpdates}
    {v : StepUpdates} (hu : u.state = some x) (hv : v.state = some y) (hturn : Turn .running e x y)
    (hy : y ≠ .running) (hok : db.Ok runId)
    (hbefore : e = .pending → ∀ r, db.run? runId = some r → EarlierSucceeded r stepId)
    {result : RunbookRunRecord × RunbookRunStepRecord}
    (h : transitionRunbookRunWithStep db runId stepId e u v now = .ok (result, db')) :
    Moves db runId [] db' := by
  obtain ⟨r, r', hr, hbody, rfl⟩ := withinTransaction_eq_ok.1 h
  rw [ite_error_eq_ok, bind_eq_ok] at hbody
  obtain ⟨hstate, steps, hsteps, hbody⟩ := hbody
  rw [ite_error_eq_ok, bind_eq_ok] at hbody
  obtain ⟨hlast, r₁, hr₁, hbody⟩ := hbody
  rw [bind_eq_ok] at hbody
  obtain ⟨step, -, hbody⟩ := hbody
  obtain ⟨rfl, -⟩ := Prod.mk.inj (Except.ok.inj hbody)
  obtain ⟨pre, s, post, hsplit, hid, rfl, rfl⟩ := updateRunbookRunStepRow_eq_ok hsteps
  obtain ⟨-, rfl⟩ := updateRunbookRunRow_eq_ok hr₁
  have hrunning : r.state = .running := not_not.1 hstate
  have hpre : AllSucceeded pre := by
    by_cases hpending : s.state = .pending
    · exact (hbefore hpending r hr).before (hok r hr) hsplit hid
    · exact (hok r hr).orderly.before (by rw [hrunning]; rfl) hsplit hpending
  refine ⟨r, _, hr, ?_, rfl⟩
  refine .turn (hrunning ▸ hturn) hsplit hpre ?_
    (StepUpdates.set_becomes (by simpa using hv) s) (fun h => absurd h hy)
    (RunUpdates.set_becomes (by simpa using hu) rfl) rfl
  rintro rfl
  have hall : (pre ++ (normalizedRunbookRunStepUpdates v s.state
      (nextRunbookRunTimestamp r.updatedAt now)).set s :: post).countP
      (fun s => s.state ≠ .succeeded) = 0 := by
    by_contra hne
    exact hlast ⟨hu, hne⟩
  intro x hx
  have := List.countP_eq_zero.1 hall x (by simp [hx])
  simpa using this

theorem pauseRunbookRunOnManualStep_moves (hok : db.Ok runId)
    (hbefore : ∀ r, db.run? runId = some r → EarlierSucceeded r stepId)
    {result : RunbookRunRecord × RunbookRunStepRecord}
    (h : pauseRunbookRunOnManualStep db runId stepId now = .ok (result, db')) :
    Moves db runId [] db' :=
  transitionRunbookRunWithStep_moves rfl rfl .pause (by simp) hok (fun _ => hbefore) h

theorem failRunbookRunStep_moves (hok : db.Ok runId) {stepState : StepState} {stepError : Bytes}
    {reason : Reason} {result : RunbookRunRecord × RunbookRunStepRecord}
    (h : failRunbookRunStep db runId stepId stepState stepError reason now = .ok (result, db')) :
    Moves db runId [] db' := by
  rw [failRunbookRunStep, ite_error_eq_ok] at h
  obtain ⟨hstate, h⟩ := h
  have hfailed : stepState = .failed ∨ stepState = .unknown := by
    by_contra hne
    exact hstate (not_or.1 hne)
  refine transitionRunbookRunWithStep_moves rfl rfl (.fail hfailed) ?_ hok (by simp) h
  rcases hfailed with rfl | rfl <;> simp

theorem finishRunbookRun_moves (hok : db.Ok runId)
    {result : RunbookRunRecord × RunbookRunStepRecord}
    (h : finishRunbookRun db runId stepId now = .ok (result, db')) : Moves db runId [] db' :=
  transitionRunbookRunWithStep_moves rfl rfl .finish (by simp) hok (by simp) h

theorem confirmRunbookRunStep_moves (hok : db.Ok runId) {confirmedBy : Bytes}
    (h : confirmRunbookRunStep db runId stepId confirmedBy now = .ok ((), db')) :
    Moves db runId [] db' := by
  obtain ⟨r, r', hr, hbody, rfl⟩ := withinTransaction_eq_ok.1 h
  rw [ite_error_eq_ok, ite_error_eq_ok] at hbody
  obtain ⟨hstate, hcount, hbody⟩ := hbody
  obtain ⟨rfl, -⟩ := Prod.mk.inj (Except.ok.inj hbody)
  obtain ⟨pre, s, post, hsplit, hs, hpre, hpost⟩ :=
    exists_split_of_countP_eq_one (not_not.1 hcount)
  obtain ⟨hid, hwaiting, hkind⟩ := of_decide_eq_true hs
  have hmanual : r.state = .waitingManual := not_not.1 hstate
  have hbefore := (hok r hr).orderly.before (by rw [hmanual]; rfl) hsplit (by simp [hwaiting])
  have hturn : Turn r.state s.state .running .succeeded := by
    rw [hmanual, hwaiting]
    exact .confirm
  refine ⟨r, _, hr, ?_, rfl⟩
  have hmap := map_ite_split
    (f := confirmedRunbookRunStep confirmedBy (nextRunbookRunTimestamp r.updatedAt now))
    hs hpre hpost
  rw [← hsplit] at hmap
  have hstep : StepBecomes s (confirmedRunbookRunStep confirmedBy
      (nextRunbookRunTimestamp r.updatedAt now) s) .succeeded := ⟨rfl, rfl, rfl, rfl⟩
  exact .turn hturn hsplit hbefore (by simp) hstep (by simp)
    ⟨rfl, lt_nextRunbookRunTimestamp _ _, rfl⟩ (by simpa using hmap)

/-- A plain resume, with the decision it carries. -/
theorem resumeRunbookRun_moves {expectedUpdatedAt : ℕ} {expectedStepId userId : Bytes}
    {decision : Option StepDecision} {r' : RunbookRun}
    (hdecided : ∀ r, db.run? runId = some r → r.updatedAt = expectedUpdatedAt →
      ∀ s, firstUnfinishedRunbookRunStep r.steps = some s → resumeDecisionRequired s = true →
        decision = some ⟨s.id, .resend⟩)
    (h : resumeRunbookRun db runId expectedUpdatedAt expectedStepId false userId now =
      .ok (r', db')) :
    ∃ r, db.run? runId = some r ∧ r.updatedAt = expectedUpdatedAt ∧
      Moves db runId [.resumed ((firstUnfinishedRunbookRunStep r.steps).map (·.id)) decision]
        db' := by
  obtain ⟨r, r₁, hr, hbody, rfl⟩ := withinTransaction_eq_ok.1 h
  rw [ite_error_eq_ok, bind_eq_ok] at hbody
  obtain ⟨hfound, steps, hsteps, hbody⟩ := hbody
  rw [bind_eq_ok] at hbody
  obtain ⟨r₂, hr₂, hbody⟩ := hbody
  obtain ⟨rfl, -⟩ := Prod.mk.inj (Except.ok.inj hbody)
  obtain ⟨-, rfl⟩ := updateRunbookRunRow_eq_ok hr₂
  simp only [not_or, not_not] at hfound
  have hsame : steps = r.steps := by
    unfold resumedRunbookRunSteps at hsteps
    split at hsteps
    · exact (Except.ok.inj hsteps).symm
    · split at hsteps
      · cases hsteps
      · rw [ite_error_eq_ok, if_pos rfl] at hsteps
        exact (Except.ok.inj hsteps.2).symm
  subst hsame
  refine ⟨r, hr, hfound.2, r, _, hr, ?_, rfl⟩
  exact .resume hfound.1 (hdecided r hr hfound.2) (RunUpdates.set_becomes (by simp) rfl) rfl

/-- A resume that marks the first unfinished step done. -/
theorem resumeRunbookRunMarkingStepDone_moves (hok : db.Ok runId) (decision : Option StepDecision)
    {expectedUpdatedAt : ℕ} {userId : Bytes} {r' : RunbookRun}
    (h : resumeRunbookRunMarkingStepDone db runId expectedUpdatedAt stepId userId now =
      .ok (r', db')) :
    Moves db runId
      [.resumed (((db.run? runId).bind fun r => firstUnfinishedRunbookRunStep r.steps).map (·.id))
        decision] db' := by
  rw [resumeRunbookRunMarkingStepDone, ite_error_eq_ok] at h
  obtain ⟨hne, h⟩ := h
  obtain ⟨r, r₁, hr, hbody, rfl⟩ := withinTransaction_eq_ok.1 h
  rw [ite_error_eq_ok, bind_eq_ok] at hbody
  obtain ⟨hfound, steps, hsteps, hbody⟩ := hbody
  rw [bind_eq_ok] at hbody
  obtain ⟨r₂, hr₂, hbody⟩ := hbody
  obtain ⟨rfl, -⟩ := Prod.mk.inj (Except.ok.inj hbody)
  obtain ⟨-, rfl⟩ := updateRunbookRunRow_eq_ok hr₂
  simp only [not_or, not_not] at hfound
  rw [resumedRunbookRunSteps, if_neg hne] at hsteps
  split at hsteps
  · cases hsteps
  · next first hfirst =>
      rw [ite_error_eq_ok, if_neg (by simp), ite_error_eq_ok] at hsteps
      obtain ⟨hid, hunknown, hsteps⟩ := hsteps
      obtain ⟨pre, s, post, hsplit, hs, hstate, rfl⟩ := updateRunbookRunStepRow_eq_ok hsteps
      have hbefore := (hok r hr).orderly.before (by rw [hfound.1]; rfl) hsplit (by simp [hstate])
      refine ⟨r, _, hr, ?_, rfl⟩
      rw [hr, Option.bind_some, hsplit,
        firstUnfinishedRunbookRunStep_split hbefore (by simp [hstate]), Option.map_some]
      exact .markDone hfound.1 hsplit hbefore hstate (StepUpdates.set_becomes (by simp) s)
        (RunUpdates.set_becomes (by simp) rfl) rfl

end Calls

/-! ### Calls on every run in some state -/

/-- Every run makes a move or stays as it is. -/
def MovesAll (db : Db) (db' : Db) : Prop :=
  ∃ f : RunbookRun → RunbookRun, (∀ r, (f r).id = r.id) ∧ (∀ r, f r = r ∨ Move r [] (f r)) ∧
    db' = ⟨db.runs.map f⟩

theorem movesAll_refl (db : Db) : MovesAll db db :=
  ⟨id, fun _ => rfl, fun _ => Or.inl rfl, by simp⟩

theorem movesAll_map {db : Db} {f : RunbookRun → RunbookRun}
    (h : ∀ r, f r = r ∨ Move r [] (f r)) : MovesAll db ⟨db.runs.map f⟩ := by
  refine ⟨f, fun r => ?_, h, rfl⟩
  rcases h r with hr | hr
  · rw [hr]
  · exact hr.later.1

theorem interruptRunningRunbookRuns_moves (db : Db) (clock : Bytes → ℕ) :
    MovesAll db (interruptRunningRunbookRuns db clock) := by
  refine movesAll_map fun r => ?_
  unfold interruptRunbookRun
  split
  · next h =>
      exact Or.inr (.interrupt h (interruptRunbookRunStep_becomes _)
        ⟨rfl, lt_nextRunbookRunTimestamp _ _, rfl⟩ rfl)
  · exact Or.inl rfl

theorem expireOpenRunbookRuns_moves (db : Db) (before : Option ℕ) (clock : Bytes → ℕ) :
    MovesAll db (expireOpenRunbookRuns db before clock) := by
  cases before with
  | none => exact movesAll_refl db
  | some cutoff =>
      refine movesAll_map fun r => ?_
      unfold expireOpenRunbookRun
      split
      · next h =>
          have hopen : isOpenRunbookRunState r.state = true := by
            rcases h.1 with h | h <;> rw [h] <;> rfl
          exact Or.inr (.close hopen (Or.inr rfl) (closeUnfinishedRunbookRunSteps_becomes _)
            ⟨rfl, lt_nextRunbookRunTimestamp _ _, rfl⟩ rfl)
      · exact Or.inl rfl

theorem expireAwaitingApprovalRunbookRuns_moves (db : Db) (before : Option ℕ)
    (clock : Bytes → ℕ) : MovesAll db (expireAwaitingApprovalRunbookRuns db before clock) := by
  cases before with
  | none => exact movesAll_refl db
  | some cutoff =>
      refine movesAll_map fun r => ?_
      unfold expireAwaitingApprovalRunbookRun
      split
      · next h =>
          exact Or.inr (.refuse h.1 (Or.inr rfl) (skipAwaitingApprovalRunbookRunSteps_becomes _)
            ⟨rfl, lt_nextRunbookRunTimestamp _ _, rfl⟩ rfl)
      · exact Or.inl rfl

end WiseLabz.Runbook
