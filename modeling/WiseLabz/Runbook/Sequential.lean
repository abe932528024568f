/-
**Sequential execution.**

What a goroutine does next rests on what it has read, which may be long out of date.  Two things do
not go out of date: a step that has succeeded stays so, and a run at the revision that was read has
not changed since.  So the goroutine's knowledge stays true while anything else happens, each of its
writes is a move of the run, and the runs of every reachable state are in order.

Main definitions:

* `Runbook.RunLater`, `Runbook.DbLater` — a run, and the tables, later on;
* `Runbook.PcOk`, `Runbook.RequestOk` — what a goroutine and a request know;
* `Runbook.Effect` — what a step of the system does to the tables;
* `Runbook.SysOk` — the invariant.

Main results:

* `Runbook.Pc.next_effect`, `Runbook.RequestPc.next_effect` — the steps of a goroutine and of a
  request;
* `Runbook.sysOk_reachable` — the invariant holds in every reachable state;
* `Runbook.sequential_execution` — **the steps of a run succeed one after the other**.
-/

import WiseLabz.Runbook.Executor

set_option relaxedAutoImplicit false
set_option autoImplicit false

namespace WiseLabz.Runbook

open Lib

/-! ### Later on -/

/-- A run later on: unchanged or at a later revision, and no success taken back. -/
structure RunLater (r r' : RunbookRun) : Prop where
  revision : r' = r ∨ r.updatedAt < r'.updatedAt
  steps : StepsLater r.steps r'.steps

theorem RunLater.refl (r : RunbookRun) : RunLater r r := ⟨Or.inl rfl, stepsLater_refl _⟩

theorem RunLater.le {r r' : RunbookRun} (h : RunLater r r') : r.updatedAt ≤ r'.updatedAt := by
  rcases h.revision with h | h
  · rw [h]
  · exact h.le

theorem Move.runLater {r r' : RunbookRun} {es : List Entry} (h : Move r es r') : RunLater r r' :=
  ⟨Or.inr h.later.2.1, h.later.2.2⟩

/-- The tables later on: every run is still there. -/
def DbLater (db db' : Db) : Prop :=
  ∀ id r, db.run? id = some r → ∃ r', db'.run? id = some r' ∧ RunLater r r'

/-- What a step of the system does to the tables. -/
inductive Effect (db : Db) (runId : Bytes) : List Entry → Db → Prop
  | quiet : Effect db runId [] db
  | move {es : List Entry} {db' : Db} (h : Moves db runId es db') : Effect db runId es db'
  | all {db' : Db} (h : MovesAll db db') : Effect db runId [] db'
  | create {r : RunbookRun} (fresh : db.run? r.id = none) (ok : RunOk r)
      (pending : ∀ s ∈ r.steps, s.state = .pending) : Effect db runId [] ⟨db.runs ++ [r]⟩

/-- Looking up a run after one was created. -/
theorem Db.run?_append {db : Db} {r : RunbookRun} (hfresh : db.run? r.id = none) (id : Bytes) :
    (Db.mk (db.runs ++ [r])).run? id = if id = r.id then some r else db.run? id := by
  simp only [Db.run?, List.find?_append] at hfresh ⊢
  by_cases h : id = r.id
  · rw [if_pos h, h, hfresh]
    simp
  · rw [if_neg h]
    simp [Ne.symm h]

/-- What becomes of each run. -/
theorem Effect.run? {db db' : Db} {runId : Bytes} {es : List Entry} (h : Effect db runId es db')
    (id : Bytes) :
    ((id = runId → es = []) ∧ db'.run? id = db.run? id) ∨
      (∃ r r', db.run? id = some r ∧ db'.run? id = some r' ∧ r'.id = r.id ∧
        ((id = runId ∧ Move r es r') ∨ (Move r [] r' ∧ es = []))) ∨
      (db.run? id = none ∧ es = [] ∧ ∃ r, db'.run? id = some r ∧ RunOk r ∧
        ∀ s ∈ r.steps, s.state = .pending) := by
  cases h with
  | quiet => exact Or.inl ⟨fun _ => rfl, rfl⟩
  | move h =>
      obtain ⟨r, r', hr, hmove, rfl⟩ := h
      have hid : r'.id = runId := hmove.later.1.trans (Db.run?_eq_some hr).2
      rw [Db.run?_put hr hid]
      split
      · next hrun =>
          subst hrun
          exact Or.inr (Or.inl ⟨r, r', hr, rfl, hmove.later.1, Or.inl ⟨rfl, hmove⟩⟩)
      · next hrun => exact Or.inl ⟨fun heq => absurd heq hrun, rfl⟩
  | all h =>
      obtain ⟨f, hid, hmove, rfl⟩ := h
      rw [Db.run?_map hid]
      cases hr : db.run? id with
      | none => exact Or.inl ⟨fun _ => rfl, rfl⟩
      | some r =>
          rcases hmove r with hsame | hmove
          · exact Or.inl ⟨fun _ => rfl, by rw [Option.map_some, hsame]⟩
          · exact Or.inr (Or.inl ⟨r, f r, rfl, rfl, hid r, Or.inr ⟨hmove, rfl⟩⟩)
  | @create r fresh ok pending =>
      rw [Db.run?_append fresh]
      split
      · next hid =>
          subst hid
          exact Or.inr (Or.inr ⟨fresh, rfl, r, rfl, ok, pending⟩)
      · exact Or.inl ⟨fun _ => rfl, rfl⟩

theorem Effect.later {db db' : Db} {runId : Bytes} {es : List Entry}
    (h : Effect db runId es db') : DbLater db db' := by
  intro id r hr
  obtain ⟨-, hsame⟩ | ⟨r₀, r', hr₀, hr', -, ⟨-, hmove⟩ | ⟨hmove, -⟩⟩ | ⟨hnone, -⟩ := h.run? id
  · exact ⟨r, hsame.trans hr, .refl r⟩
  · obtain rfl := Option.some.inj (hr.symm.trans hr₀)
    exact ⟨r', hr', hmove.runLater⟩
  · obtain rfl := Option.some.inj (hr.symm.trans hr₀)
    exact ⟨r', hr', hmove.runLater⟩
  · rw [hnone] at hr
    cases hr

theorem Effect.ok {db db' : Db} {runId : Bytes} {es : List Entry} (h : Effect db runId es db')
    (hok : ∀ id, db.Ok id) : ∀ id, db'.Ok id := by
  intro id r hr
  obtain ⟨-, hsame⟩ | ⟨r₀, r', hr₀, hr', -, ⟨-, hmove⟩ | ⟨hmove, -⟩⟩ | ⟨-, -, r', hr', hr'ok, -⟩ :=
    h.run? id
  · exact hok id r (hsame ▸ hr)
  · obtain rfl := Option.some.inj (hr.symm.trans hr')
    exact hmove.runOk (hok id r₀ hr₀)
  · obtain rfl := Option.some.inj (hr.symm.trans hr')
    exact hmove.runOk (hok id r₀ hr₀)
  · obtain rfl := Option.some.inj (hr.symm.trans hr')
    exact hr'ok

theorem Effect.distinct {db db' : Db} {runId : Bytes} {es : List Entry}
    (h : Effect db runId es db') (hdistinct : (db.runs.map (·.id)).Nodup) :
    (db'.runs.map (·.id)).Nodup := by
  cases h with
  | quiet => exact hdistinct
  | move h =>
      obtain ⟨r, r', hr, hmove, rfl⟩ := h
      rw [Db.put, map_id_eq]
      · exact hdistinct
      · intro r₀
        split
        · next hid => rw [hid, hmove.later.1, (Db.run?_eq_some hr).2]
        · rfl
  | all h =>
      obtain ⟨f, hid, -, rfl⟩ := h
      rw [map_id_eq hid]
      exact hdistinct
  | @create r fresh ok pending =>
      rw [List.map_append, List.map_singleton, List.nodup_append]
      refine ⟨hdistinct, List.nodup_singleton _, ?_⟩
      rintro a ha b hb rfl
      obtain ⟨r₀, hr₀, rfl⟩ := List.mem_map.1 ha
      have hnone := List.find?_eq_none.1 fresh r₀ hr₀
      simp [List.mem_singleton.1 hb] at hnone

/-! ### What goroutines and requests know -/

/-- What a goroutine knows of its run: the steps before the one it is about to start, or has
started, have succeeded. -/
def PcOk (db : Db) (runId : Bytes) : Pc → Prop
  | .readingSteps _ => ∃ r, db.run? runId = some r
  | .pausing step => ∃ r, db.run? runId = some r ∧ EarlierSucceeded r step.id
  | .starting _ _ step =>
      startable step.state = true ∧ ∃ r, db.run? runId = some r ∧ EarlierSucceeded r step.id
  | .started _ step _ => ∃ r, db.run? runId = some r ∧ EarlierSucceeded r step.id
  | .finishing => ∃ r, db.run? runId = some r ∧ AllSucceeded r.steps
  | _ => True

/-- What a request knows of the run it has read: while the run is at that revision, the decision
is the one its first unfinished step needs. -/
def RequestOk (db : Db) : RequestPc → Prop
  | .resumingRead run _ _ _ _ => ∃ r, db.run? run.id = some r ∧ run.updatedAt ≤ r.updatedAt
  | .resumingFailed run _ applied expect =>
      expectedUpdatedAt run expect = run.updatedAt ∧
        ∃ r, db.run? run.id = some r ∧ run.updatedAt ≤ r.updatedAt ∧
          (r.updatedAt = run.updatedAt →
            ∀ s, firstUnfinished r.steps = some s → resumeDecisionRequired s = true →
              applied = some ⟨s.id, .resend⟩)
  | _ => True

/-- What a goroutine knows stays true. -/
theorem PcOk.later {db db' : Db} {runId : Bytes} {pc : Pc} (h : PcOk db runId pc)
    (hlater : DbLater db db') : PcOk db' runId pc := by
  have hcursor : ∀ stepId, (∃ r, db.run? runId = some r ∧ EarlierSucceeded r stepId) →
      ∃ r, db'.run? runId = some r ∧ EarlierSucceeded r stepId := by
    rintro stepId ⟨r, hr, hearlier⟩
    obtain ⟨r', hr', hrun⟩ := hlater runId r hr
    exact ⟨r', hr', hearlier.later hrun.steps⟩
  cases pc with
  | readingSteps run =>
      obtain ⟨r, hr⟩ := h
      obtain ⟨r', hr', -⟩ := hlater runId r hr
      exact ⟨r', hr'⟩
  | pausing step => exact hcursor step.id h
  | starting run steps step => exact ⟨h.1, hcursor step.id h.2⟩
  | started run step last => exact hcursor step.id h
  | finishing =>
      obtain ⟨r, hr, hall⟩ := h
      obtain ⟨r', hr', hrun⟩ := hlater runId r hr
      exact ⟨r', hr', hrun.steps.allSucceeded hall⟩
  | _ => trivial

/-- What a request knows stays true. -/
theorem RequestOk.later {db db' : Db} {pc : RequestPc} (h : RequestOk db pc)
    (hlater : DbLater db db') : RequestOk db' pc := by
  cases pc with
  | resumingRead run userId decision expect requireFields =>
      obtain ⟨r, hr, hle⟩ := h
      obtain ⟨r', hr', hrun⟩ := hlater run.id r hr
      exact ⟨r', hr', hle.trans hrun.le⟩
  | resumingFailed run userId applied expect =>
      obtain ⟨hexpected, r, hr, hle, hdecided⟩ := h
      obtain ⟨r', hr', hrun⟩ := hlater run.id r hr
      refine ⟨hexpected, r', hr', hle.trans hrun.le, ?_⟩
      intro hrevision
      -- at the revision that was read the run has not changed
      rcases hrun.revision with rfl | hlt
      · exact hdecided hrevision
      · omega
  | _ => trivial

theorem requestOk_of_plain {db : Db} {pc : RequestPc} (h : pc.plain = true) : RequestOk db pc := by
  cases pc with
  | resumingRead | resumingFailed => cases h
  | _ => trivial

/-! ### A step of a goroutine -/

theorem firstUnfinished_eq (steps : List RunbookRunStepRecord) :
    firstUnfinished steps = firstUnfinishedRunbookRunStep steps := rfl

/-- What a goroutine knows once it has read the steps of its run. -/
theorem pcOk_execute {db : Db} {runId : Bytes} {r : RunbookRun} (hr : db.run? runId = some r)
    (run : RunbookRunRecord) : PcOk db runId (execute run r.steps) := by
  unfold execute
  split
  · trivial
  · split
    · next hnone =>
        exact ⟨r, hr, firstUnfinishedRunbookRunStep_eq_none.1 hnone⟩
    · next step hstep =>
        obtain ⟨pre, post, hsplit, -, hpre⟩ := firstUnfinishedRunbookRunStep_eq_some hstep
        have hearlier : EarlierSucceeded r step.id := ⟨pre, step, post, hsplit, rfl, hpre⟩
        unfold runStep
        split
        · exact ⟨r, hr, hearlier⟩
        · split
          · next hstartable => exact ⟨hstartable, r, hr, hearlier⟩
          · split <;> trivial

/-- The start of a step is recorded before `perform` is invoked. -/
def StartRecorded (db db' : Db) (runId : Bytes) (pc' : Pc) : Prop :=
  ∀ run step last, pc' = .started run step last → ∃ revision,
    step.startedAt = some revision ∧
      changesOf db db' runId = [.recorded step.id .running revision]

theorem startRecorded_of_not_started {db db' : Db} {runId : Bytes} {pc' : Pc}
    (h : ∀ run step last, pc' ≠ .started run step last) : StartRecorded db db' runId pc' :=
  fun run step last heq => absurd heq (h run step last)

theorem execute_ne_started (run : RunbookRunRecord) (steps : List RunbookRunStepRecord)
    (run' : RunbookRunRecord) (step : RunbookRunStepRecord) (last : Bool) :
    execute run steps ≠ .started run' step last := by
  unfold execute runStep
  split
  · simp
  · split
    · simp
    · split
      · simp
      · split
        · simp
        · split <;> simp

/-- **A step of a goroutine**: it is quiet or a move, what the goroutine knows is true again, and a
step it has started is recorded. -/
theorem Pc.next_effect {db db' : Db} {runId : Bytes} {pc pc' : Pc} {done : Bool} {c : Chance}
    (hok : db.Ok runId) (hpc : PcOk db runId pc)
    (h : pc.next done runId c db = some (pc', db')) :
    Effect db runId [] db' ∧ PcOk db' runId pc' ∧ StartRecorded db db' runId pc' := by
  cases pc with
  | claiming | returning | stopped => cases h
  | looping =>
      simp only [Pc.next, Option.some.injEq, Prod.mk.injEq] at h
      obtain ⟨rfl, rfl⟩ := h
      refine ⟨.quiet, ?_, startRecorded_of_not_started ?_⟩
      · split <;> trivial
      · intro run step last
        split <;> simp
  | readingRun =>
      simp only [Pc.next] at h
      split at h
      · cases h
        exact ⟨.quiet, trivial, startRecorded_of_not_started (by simp)⟩
      · next r hr =>
          cases h
          refine ⟨.quiet, ⟨r, ?_⟩, startRecorded_of_not_started (by simp)⟩
          obtain ⟨-, hr⟩ := attempt_eq_ok.1 hr
          unfold lockRunbookRun at hr
          split at hr
          · cases hr
          · next r' hr' =>
              cases hr
              exact hr'
  | readingSteps run =>
      obtain ⟨r, hr⟩ := hpc
      simp only [Pc.next] at h
      split at h
      · cases h
        exact ⟨.quiet, trivial, startRecorded_of_not_started (by simp)⟩
      · next steps hsteps =>
          cases h
          obtain ⟨-, hsteps⟩ := attempt_eq_ok.1 hsteps
          rw [hr] at hsteps
          obtain rfl : r.steps = steps := Except.ok.inj hsteps
          exact ⟨.quiet, pcOk_execute hr run,
            startRecorded_of_not_started fun _ _ _ => execute_ne_started _ _ _ _ _⟩
  | pausing step =>
      obtain ⟨r, hr, hearlier⟩ := hpc
      simp only [Pc.next] at h
      split at h
      · cases h
        exact ⟨.quiet, trivial, startRecorded_of_not_started (by simp)⟩
      · next result db'' hpause =>
          cases h
          refine ⟨.move (pauseRunbookRunOnManualStep_moves hok ?_ (attempt_eq_ok.1 hpause).2),
            trivial, startRecorded_of_not_started (by simp)⟩
          intro r' hr'
          rw [hr] at hr'
          exact Option.some.inj hr' ▸ hearlier
  | starting run steps step =>
      obtain ⟨hstartable, r, hr, hearlier⟩ := hpc
      simp only [Pc.next] at h
      split at h
      · cases h
        refine ⟨.quiet, ?_, startRecorded_of_not_started ?_⟩
        · split <;> trivial
        · intro run step last
          split <;> simp
      · next row db'' hstart =>
          cases h
          have hearlier' : ∀ r', db.run? runId = some r' → EarlierSucceeded r' step.id := by
            intro r' hr'
            rw [hr] at hr'
            exact Option.some.inj hr' ▸ hearlier
          obtain ⟨hmoves, hid, revision, hrevision, hchanges⟩ :=
            updateRunbookRunStep_start_moves hstartable hok hearlier' (attempt_eq_ok.1 hstart).2
          have heffect : Effect db runId [] db' := .move hmoves
          obtain ⟨r', hr', hrun⟩ := heffect.later runId r hr
          refine ⟨heffect, ⟨r', hr', hid ▸ hearlier.later hrun.steps⟩, ?_⟩
          rintro run' step' last' heq
          simp only [Pc.started.injEq] at heq
          obtain ⟨-, rfl, -⟩ := heq
          exact ⟨revision, hrevision, hid ▸ hchanges⟩
  | started run step last =>
      simp only [Pc.next, Option.some.injEq, Prod.mk.injEq] at h
      obtain ⟨rfl, rfl⟩ := h
      exact ⟨.quiet, trivial, startRecorded_of_not_started (by simp)⟩
  | performing run step last =>
      simp only [Pc.next] at h
      split at h
      · cases h
        exact ⟨.quiet, trivial, startRecorded_of_not_started (by simp)⟩
      · split at h <;> cases h <;>
          exact ⟨.quiet, trivial, startRecorded_of_not_started (by simp)⟩
  | recordingSuccess step last =>
      cases last with
      | true =>
          simp only [Pc.next] at h
          split at h
          · cases h
            exact ⟨.quiet, trivial, startRecorded_of_not_started (by simp [outcomeNotRecorded])⟩
          · next result db'' hfinish =>
              cases h
              exact ⟨.move (finishRunbookRun_moves hok (attempt_eq_ok.1 hfinish).2), trivial,
                startRecorded_of_not_started (by simp)⟩
      | false =>
          simp only [Pc.next] at h
          split at h
          · cases h
            exact ⟨.quiet, trivial, startRecorded_of_not_started (by simp [outcomeNotRecorded])⟩
          · next result db'' hdone =>
              cases h
              exact ⟨.move (updateRunbookRunStep_succeed_moves hok (attempt_eq_ok.1 hdone).2),
                trivial, startRecorded_of_not_started (by simp)⟩
  | recordingFailure step stepState failure =>
      simp only [Pc.next] at h
      split at h
      · cases h
        exact ⟨.quiet, trivial, startRecorded_of_not_started (by simp)⟩
      · next result db'' hfail =>
          cases h
          exact ⟨.move (failRunbookRunStep_moves hok (attempt_eq_ok.1 hfail).2), trivial,
            startRecorded_of_not_started (by simp)⟩
  | failing cause =>
      simp only [Pc.next, Option.some.injEq, Prod.mk.injEq] at h
      obtain ⟨rfl, rfl⟩ := h
      refine ⟨.quiet, ?_, startRecorded_of_not_started ?_⟩
      · split <;> trivial
      · intro run step last
        split <;> simp
  | recordingFailed =>
      simp only [Pc.next] at h
      split at h
      · cases h
        exact ⟨.quiet, trivial, startRecorded_of_not_started (by simp)⟩
      · next result db'' hfail =>
          cases h
          exact ⟨.move (updateRunbookRun_fail_moves rfl (attempt_eq_ok.1 hfail).2), trivial,
            startRecorded_of_not_started (by simp)⟩
  | finishing =>
      obtain ⟨r, hr, hall⟩ := hpc
      simp only [Pc.next] at h
      split at h
      · cases h
        exact ⟨.quiet, trivial, startRecorded_of_not_started (by simp)⟩
      · next result db'' hfinish =>
          cases h
          refine ⟨.move (updateRunbookRun_succeed_moves rfl ?_ (attempt_eq_ok.1 hfinish).2),
            trivial, startRecorded_of_not_started (by simp)⟩
          intro r' hr'
          rw [hr] at hr'
          exact Option.some.inj hr' ▸ hall

/-! ### A step of a request -/

/-- What a request knows once it has read the steps of its run. -/
theorem requestOk_resume {db : Db} {run : RunbookRunRecord} {r : RunbookRun}
    (hr : db.run? run.id = some r) (hle : run.updatedAt ≤ r.updatedAt) (userId : Bytes)
    (decision : ResumeDecision) (expect : ResumeExpectation) (requireFields : Bool) :
    RequestOk db (resume run r.steps userId decision expect requireFields) := by
  unfold resume
  split
  · trivial
  · next hrevision =>
      have hexpected : expectedUpdatedAt run expect = run.updatedAt := by
        unfold expectedUpdatedAt
        cases hgiven : expect.updatedAt with
        | none => rfl
        | some revision =>
            by_contra hne
            refine hrevision ⟨by simp [hgiven], ?_⟩
            rw [hgiven]
            exact fun heq => hne (Option.some.inj heq)
      split
      · trivial
      · split
        · next hnone =>
            split
            · trivial
            · refine ⟨hexpected, r, hr, hle, fun _ s hs => ?_⟩
              rw [hnone] at hs
              cases hs
        · next step hstep =>
            split
            · trivial
            · split
              · next hundecided =>
                  refine ⟨hexpected, r, hr, hle, fun _ s hs hrequired => ?_⟩
                  rw [hstep] at hs
                  obtain rfl := Option.some.inj hs
                  rw [hundecided] at hrequired
                  cases hrequired
              · split
                · trivial
                · next hdecision =>
                    split
                    · trivial
                    · split
                      · trivial
                      · next hmark =>
                          refine ⟨hexpected, r, hr, hle, fun _ s hs _ => ?_⟩
                          rw [hstep] at hs
                          obtain rfl := Option.some.inj hs
                          have hresend : decision = .resend := by
                            cases decision with
                            | none => exact absurd rfl hdecision
                            | resend => rfl
                            | markDone => exact absurd rfl hmark
                          rw [hresend]

/-- A created run. -/
theorem createRunbookRunWithState_effect {db db' : Db} {title : Option Bytes} {newId : Bytes}
    {newStepIds : List Bytes} {runbookId startedBy : Bytes} {steps : List FrozenStep}
    {initialState : RunState} {requiresApproval : Bool} {now : ℕ} {r : RunbookRun}
    (h : createRunbookRunWithState db title newId newStepIds runbookId startedBy steps initialState
      requiresApproval now = .ok (r, db')) (runId : Bytes) : Effect db runId [] db' := by
  obtain ⟨hok, hid, hfresh, rfl, hpending⟩ := createRunbookRunWithState_eq_ok h
  exact .create (hid ▸ hfresh) hok hpending

/-- **A step of a request**: it is quiet, a move or a new run, and what the request knows is true
again. -/
theorem RequestPc.next_effect {db : Db} {pc : RequestPc} {c : Chance} {result : RequestResult}
    (hok : ∀ id, db.Ok id) (hpc : RequestOk db pc) (h : pc.next c db = some result) :
    Effect db result.runId result.entries result.db ∧ RequestOk result.db result.pc := by
  cases pc with
  | starting runbookId userId steps =>
      simp only [RequestPc.next] at h
      split at h <;> cases h
      · exact ⟨.quiet, trivial⟩
      · next hcreate =>
          exact ⟨createRunbookRunWithState_effect (attempt_eq_ok.1 hcreate).2 _, trivial⟩
  | requesting runbookId userId steps =>
      simp only [RequestPc.next] at h
      split at h
      · cases h
        exact ⟨.quiet, trivial⟩
      · split at h <;> cases h
        · exact ⟨.quiet, trivial⟩
        · next hcreate =>
            exact ⟨createRunbookRunWithState_effect (attempt_eq_ok.1 hcreate).2 _, trivial⟩
  | approving runId userId =>
      simp only [RequestPc.next] at h
      split at h <;> cases h
      · exact ⟨.quiet, trivial⟩
      · next happrove => exact ⟨.move (approveRunbookRun_moves (attempt_eq_ok.1 happrove).2), trivial⟩
  | rejecting runId userId =>
      simp only [RequestPc.next] at h
      split at h <;> cases h
      · exact ⟨.quiet, trivial⟩
      · next hreject => exact ⟨.move (rejectRunbookRun_moves (attempt_eq_ok.1 hreject).2), trivial⟩
  | confirming runId stepId userId =>
      simp only [RequestPc.next] at h
      split at h <;> cases h
      · exact ⟨.quiet, trivial⟩
      · next hconfirm =>
          exact ⟨.move (confirmRunbookRunStep_moves (hok _) (attempt_eq_ok.1 hconfirm).2), trivial⟩
  | cancelling runId userId =>
      simp only [RequestPc.next] at h
      split at h <;> cases h
      · exact ⟨.quiet, trivial⟩
      · next hcancel => exact ⟨.move (cancelRunbookRun_moves (attempt_eq_ok.1 hcancel).2), trivial⟩
  | resuming runId userId decision expect requireFields =>
      simp only [RequestPc.next] at h
      split at h <;> cases h
      · exact ⟨.quiet, trivial⟩
      · next r hr =>
          obtain ⟨-, hr⟩ := attempt_eq_ok.1 hr
          unfold lockRunbookRun at hr
          split at hr <;> cases hr
          next hr => exact ⟨.quiet, r, by rw [(Db.run?_eq_some hr).2, hr], le_rfl⟩
  | resumingRead run userId decision expect requireFields =>
      obtain ⟨r, hr, hle⟩ := hpc
      simp only [RequestPc.next] at h
      split at h <;> cases h
      · exact ⟨.quiet, trivial⟩
      · next hsteps =>
          obtain ⟨-, hsteps⟩ := attempt_eq_ok.1 hsteps
          rw [hr] at hsteps
          cases hsteps
          exact ⟨.quiet, requestOk_resume hr hle userId decision expect requireFields⟩
  | resumingFailed run userId applied expect =>
      obtain ⟨hexpected, r, hr, hle, hdecided⟩ := hpc
      simp only [RequestPc.next] at h
      split at h <;> cases h
      · exact ⟨.quiet, trivial⟩
      · next hresume =>
          obtain ⟨-, hresume⟩ := attempt_eq_ok.1 hresume
          have hfound : ∀ r', db.run? run.id = some r' →
              r'.updatedAt = expectedUpdatedAt run expect →
              ∀ s, firstUnfinishedRunbookRunStep r'.steps = some s →
                resumeDecisionRequired s = true → applied = some ⟨s.id, .resend⟩ := by
            intro r' hr' hrevision
            obtain rfl := Option.some.inj (hr.symm.trans hr')
            exact hdecided (hrevision.trans hexpected)
          obtain ⟨r', hr', -, hmoves⟩ := resumeRunbookRun_moves hfound hresume
          refine ⟨.move ?_, trivial⟩
          simpa [resumedEntry, hr', firstUnfinished_eq] using hmoves
  | resumingMarkingDone run stepId userId applied expect =>
      simp only [RequestPc.next] at h
      split at h <;> cases h
      · exact ⟨.quiet, trivial⟩
      · next hresume =>
          obtain ⟨-, hresume⟩ := attempt_eq_ok.1 hresume
          refine ⟨.move ?_, trivial⟩
          exact resumeRunbookRunMarkingStepDone_moves (hok _) applied hresume
  | failingShutdown runId =>
      simp only [RequestPc.next] at h
      split at h <;> cases h
      · exact ⟨.quiet, trivial⟩
      · next hfail =>
          exact ⟨.move (updateRunbookRun_fail_moves rfl (attempt_eq_ok.1 hfail).2), trivial⟩
  | cancellingActive | stopping | awaitingStopped | spawning | returned => cases h

/-! ### The invariant of the system -/

/-- **The invariant**: the runs are in order, and what goroutines and requests know is true. -/
structure SysOk (s : Sys) : Prop where
  runs : ∀ id, s.db.Ok id
  distinct : (s.db.runs.map (·.id)).Nodup
  goroutines : ∀ g ∈ s.goroutines, PcOk s.db g.runId g.pc
  requests : ∀ pc ∈ s.requests, RequestOk s.db pc

/-- The runs after a step of the system. -/
theorem SysOk.of_effect {s t : Sys} {runId : Bytes} {es : List Entry} (h : SysOk s)
    (heffect : Effect s.db runId es t.db)
    (hgoroutines : ∀ g ∈ t.goroutines, PcOk s.db g.runId g.pc ∨ PcOk t.db g.runId g.pc)
    (hrequests : ∀ pc ∈ t.requests, RequestOk s.db pc ∨ RequestOk t.db pc) : SysOk t where
  runs := heffect.ok h.runs
  distinct := heffect.distinct h.distinct
  goroutines g hg := (hgoroutines g hg).elim (fun hpc => hpc.later heffect.later) fun hpc => hpc
  requests pc hpc := (hrequests pc hpc).elim (fun hpc => hpc.later heffect.later) fun hpc => hpc

theorem SysOk.goroutineStep {s t : Sys} {i : ℕ} {c : Chance} (h : SysOk s)
    (hs : s.goroutineStep i c = some t) : SysOk t := by
  obtain ⟨g, hg, hcases⟩ := Sys.goroutineStep_cases hs
  have hgpc := h.goroutines g (List.mem_of_getElem? hg)
  have hset : ∀ pc db', PcOk db' g.runId pc →
      ∀ g' ∈ s.goroutines.set i { g with pc := pc },
        PcOk s.db g'.runId g'.pc ∨ PcOk db' g'.runId g'.pc := by
    intro pc db' hpc g' hg'
    rcases List.mem_or_eq_of_mem_set hg' with hg' | rfl
    · exact Or.inl (h.goroutines g' hg')
    · exact Or.inr hpc
  obtain ⟨-, rfl⟩ | ⟨-, -, rfl⟩ | ⟨-, rfl⟩ | ⟨pc', db', hnext, rfl⟩ := hcases
  · exact h.of_effect (.quiet : Effect s.db [] [] s.db) (hset .stopped _ trivial) fun pc hpc =>
      Or.inl (h.requests pc hpc)
  · exact h.of_effect (.quiet : Effect s.db [] [] s.db) (hset .looping _ trivial) fun pc hpc =>
      Or.inl (h.requests pc hpc)
  · exact h.of_effect (.quiet : Effect s.db [] [] s.db) (hset .stopped _ trivial) fun pc hpc =>
      Or.inl (h.requests pc hpc)
  · obtain ⟨heffect, hpc', -⟩ := Pc.next_effect (h.runs _) hgpc hnext
    exact h.of_effect heffect (hset pc' db' hpc') fun pc hpc => Or.inl (h.requests pc hpc)

theorem SysOk.requestStep {s t : Sys} {q : ℕ} {c : Chance} (h : SysOk s)
    (hs : s.requestStep q c = some t) : SysOk t := by
  obtain ⟨pc, hpc, ⟨pc', gs, hplain, hgs, rfl⟩ | ⟨result, hnext, rfl⟩⟩ := Sys.requestStep_cases hs
  · refine h.of_effect (.quiet : Effect s.db [] [] s.db) ?_ ?_
    · intro g' hg'
      obtain ⟨i, hi⟩ := List.getElem?_of_mem hg'
      rcases hgs.getElem? hi with hclaiming | ⟨g, hg, hrun, hsame⟩
      · exact Or.inl (by rw [hclaiming]; trivial)
      · rw [hrun, hsame]
        exact Or.inl (h.goroutines g (List.mem_of_getElem? hg))
    · intro pc'' hpc''
      rcases List.mem_or_eq_of_mem_set hpc'' with hold | rfl
      · exact Or.inl (h.requests _ hold)
      · exact Or.inl (requestOk_of_plain hplain)
  · obtain ⟨heffect, hresult⟩ :=
      RequestPc.next_effect h.runs (h.requests pc (List.mem_of_getElem? hpc)) hnext
    refine h.of_effect heffect (fun g hg => Or.inl (h.goroutines g hg)) ?_
    intro pc'' hpc''
    rcases List.mem_or_eq_of_mem_set hpc'' with hold | rfl
    · exact Or.inl (h.requests _ hold)
    · exact Or.inr hresult

/-- **Every step keeps the invariant.** -/
theorem SysOk.step {s t : Sys} {a : Event} (h : SysOk s) (hs : s.step a = some t) : SysOk t := by
  have hold : ∀ {t : Sys}, Effect s.db [] [] t.db →
      t.goroutines = s.goroutines → t.requests = s.requests → SysOk t := by
    intro t heffect hgoroutines hrequests
    refine h.of_effect heffect ?_ ?_
    · rw [hgoroutines]
      exact fun g hg => Or.inl (h.goroutines g hg)
    · rw [hrequests]
      exact fun pc hpc => Or.inl (h.requests pc hpc)
  cases a with
  | goroutine i c => exact h.goroutineStep hs
  | request q c => exact h.requestStep hs
  | submit pc =>
      simp only [Sys.step] at hs
      split at hs
      · next hnew =>
          obtain rfl := Option.some.inj hs
          refine h.of_effect (.quiet : Effect s.db [] [] s.db) (fun g hg => Or.inl (h.goroutines g hg)) ?_
          intro pc' hpc'
          rcases List.mem_append.1 hpc' with hpc' | hpc'
          · exact Or.inl (h.requests pc' hpc')
          · obtain rfl := List.mem_singleton.1 hpc'
            refine Or.inl (requestOk_of_plain ?_)
            cases pc' <;> first | rfl | exact absurd hnew.2 (by simp [RequestPc.isNew])
      · cases hs
  | expireOpen before clock io =>
      simp only [Sys.step] at hs
      split at hs
      · obtain rfl := Option.some.inj hs
        exact hold (.all (expireOpenRunbookRuns_moves _ _ _)) rfl rfl
      · cases hs
  | expireAwaiting before clock io =>
      simp only [Sys.step] at hs
      split at hs
      · obtain rfl := Option.some.inj hs
        exact hold (.all (expireAwaitingApprovalRunbookRuns_moves _ _ _)) rfl rfl
      · cases hs
  | stop | cancelBase =>
      obtain rfl := Option.some.inj hs
      exact hold .quiet rfl rfl
  | crash =>
      obtain rfl := Option.some.inj hs
      exact h.of_effect (.quiet : Effect s.db [] [] s.db) (by simp) (by simp)
  | recover clock io =>
      simp only [Sys.step] at hs
      split at hs
      · cases hs
      · split at hs <;> obtain rfl := Option.some.inj hs
        · exact hold (.all (interruptRunningRunbookRuns_moves _ _)) rfl rfl
        · exact h

theorem Created.effect {db : Db} (h : Created db) :
    (∀ id, db.Ok id) ∧ (db.runs.map (·.id)).Nodup := by
  induction h with
  | empty =>
      refine ⟨?_, List.nodup_nil⟩
      intro id r hr
      cases hr
  | create _ hcreate ih =>
      have heffect := createRunbookRunWithState_effect hcreate []
      exact ⟨heffect.ok ih.1, heffect.distinct ih.2⟩

/-- **The invariant holds in every reachable state.** -/
theorem sysOk_reachable {s : Sys} (h : executor.Reachable s) : SysOk s := by
  refine h.invariant ?_ fun s a t hs hstep => hs.step hstep
  rintro s ⟨hcreated, hclaiming, hrequests, -⟩
  refine ⟨hcreated.effect.1, hcreated.effect.2, ?_, by simp [hrequests]⟩
  intro g hg
  rw [hclaiming g hg]
  trivial

/-! ### Sequential execution -/

/-- The step under way of an open run. -/
theorem OpenOrder.cursor {steps : List RunbookRunStepRecord} (h : OpenOrder steps) :
    ∃ pre, ∃ mid : Option RunbookRunStepRecord, ∃ post, steps = pre ++ (mid.toList ++ post) ∧
      AllSucceeded pre ∧
      (∀ x ∈ mid, x.state = .running ∨ x.state = .waiting ∨ x.state = .failed ∨
        x.state = .unknown) ∧
      ∀ x ∈ post, x.state = .pending := by
  obtain ⟨pre, mid, post, rfl, hpre, hmid, hpost⟩ := around_iff_cursor.1 h.1
  refine ⟨pre, mid, post, rfl, hpre, ?_, hpost⟩
  intro x hx
  obtain ⟨hsucceeded, hpending⟩ := hmid x hx
  have hskipped := h.2 x (by simp [Option.mem_def.1 hx])
  cases hstate : x.state <;> simp_all

/-- The step that was under way when a run was closed. -/
theorem ClosedOrder.cursor {steps : List RunbookRunStepRecord} (h : ClosedOrder steps) :
    ∃ pre, ∃ mid : Option RunbookRunStepRecord, ∃ post, steps = pre ++ (mid.toList ++ post) ∧
      AllSucceeded pre ∧ (∀ x ∈ mid, x.state = .failed ∨ x.state = .unknown) ∧
      ∀ x ∈ post, x.state = .skipped := by
  obtain ⟨pre, mid, post, rfl, hpre, hmid, hpost⟩ := around_iff_cursor.1 h.1
  refine ⟨pre, mid, post, rfl, hpre, ?_, hpost⟩
  intro x hx
  obtain ⟨hsucceeded, hskipped⟩ := hmid x hx
  rcases h.2 x (by simp [Option.mem_def.1 hx]) with hx | hx | hx | hx
  · exact absurd hx hsucceeded
  · exact Or.inl hx
  · exact Or.inr hx
  · exact absurd hx hskipped

/-- A rejected run was closed before its first step. -/
theorem Orderly.closedOrder {r : RunbookRun} (h : Orderly r)
    (hclosed : r.state = .cancelled ∨ r.state = .expired ∨ r.state = .rejected) :
    ClosedOrder r.steps := by
  unfold Orderly at h
  rcases hclosed with hs | hs | hs <;> rw [hs] at h
  · exact h
  · exact h
  · exact ⟨around_of_forall_right h, fun s hs' => by simp [h s hs']⟩

/-- A step waits exactly while its run does. -/
theorem Orderly.waiting_iff {r : RunbookRun} (h : Orderly r) :
    (∃ x ∈ r.steps, x.state = .waiting) ↔ r.state = .waitingManual := by
  unfold Orderly at h
  constructor
  · rintro ⟨x, hx, hwaiting⟩
    cases hs : r.state with
    | waitingManual => rfl
    | running | failed =>
        rw [hs] at h
        exact absurd hwaiting (h.2 x hx)
    | cancelled | expired =>
        rw [hs] at h
        simpa [hwaiting] using h.2 x hx
    | succeeded | awaitingApproval | rejected =>
        rw [hs] at h
        simpa [hwaiting] using h x hx
  · intro hs
    rw [hs] at h
    exact h.2

/-- A step is running only in a running or failed run. -/
theorem Orderly.running {r : RunbookRun} (h : Orderly r) {x : RunbookRunStepRecord}
    (hx : x ∈ r.steps) (hrunning : x.state = .running) : r.state = .running ∨ r.state = .failed := by
  unfold Orderly at h
  cases hs : r.state <;> rw [hs] at h
  case running => exact Or.inl rfl
  case failed => exact Or.inr rfl
  case waitingManual =>
    obtain ⟨⟨horder, -⟩, w, hw, hwaiting⟩ := h
    obtain ⟨pre, post, hsplit⟩ := List.append_of_mem hx
    rw [hsplit] at horder hw
    have hbefore := Around.before horder (by simp [hrunning])
    have hafter := Around.after horder (by simp [hrunning])
    rcases List.mem_append.1 hw with hw | hw
    · simp [hbefore w hw] at hwaiting
    · rcases List.mem_cons.1 hw with rfl | hw
      · simp [hrunning] at hwaiting
      · simp [hafter w hw] at hwaiting
  case cancelled | expired => simpa [hrunning] using h.2 x hx
  all_goals simpa [hrunning] using h x hx

/-- **Sequential execution.**  In every reachable state the steps of every run, in the order of
their positions, have succeeded up to the one under way, and those behind it are pending while the
run is open and skipped once it is cancelled, expired or rejected; a run succeeds only with all its
steps; a step waits exactly while its run does; and a step is running only in a running run, or in
one that failed without its outcome. -/
theorem sequential_execution {s : Sys} (h : executor.Reachable s) {r : RunbookRun}
    (hr : r ∈ s.db.runs) :
    r.steps.map (·.position) = List.range r.steps.length ∧
    (isOpenRunbookRunState r.state = true →
      ∃ pre, ∃ mid : Option RunbookRunStepRecord, ∃ post,
        r.steps = pre ++ (mid.toList ++ post) ∧ (∀ x ∈ pre, x.state = .succeeded) ∧
        (∀ x ∈ mid, x.state = .running ∨ x.state = .waiting ∨ x.state = .failed ∨
          x.state = .unknown) ∧
        ∀ x ∈ post, x.state = .pending) ∧
    (r.state = .cancelled ∨ r.state = .expired ∨ r.state = .rejected →
      ∃ pre, ∃ mid : Option RunbookRunStepRecord, ∃ post,
        r.steps = pre ++ (mid.toList ++ post) ∧ (∀ x ∈ pre, x.state = .succeeded) ∧
        (∀ x ∈ mid, x.state = .failed ∨ x.state = .unknown) ∧
        ∀ x ∈ post, x.state = .skipped) ∧
    (r.state = .succeeded → ∀ x ∈ r.steps, x.state = .succeeded) ∧
    ((∃ x ∈ r.steps, x.state = .waiting) ↔ r.state = .waitingManual) ∧
    (∀ x ∈ r.steps, x.state = .running → r.state = .running ∨ r.state = .failed) ∧
    (r.state = .awaitingApproval → ∀ x ∈ r.steps, x.state = .pending) := by
  have hsys := sysOk_reachable h
  have hok := hsys.runs r.id r (run?_of_mem hsys.distinct hr)
  refine ⟨hok.positions, fun hopen => (hok.orderly.openOrder hopen).cursor,
    fun hclosed => (hok.orderly.closedOrder hclosed).cursor, ?_, hok.orderly.waiting_iff,
    fun x hx hrunning => hok.orderly.running hx hrunning, ?_⟩
  · intro hs
    have horderly := hok.orderly
    rw [Orderly, hs] at horderly
    exact horderly
  · intro hs
    have horderly := hok.orderly
    rw [Orderly, hs] at horderly
    exact horderly

/-! ### A sample run -/

/-- A step of kind `kind`. -/
def sampleStep (kind : StepKind) : FrozenStep :=
  { kind, title := [1], connectorId := [], verb := [], entityRef := [], fieldKey := []
    targetValue := [], attributeName := [], operator := [], expectedValue := [], action := []
    actionFingerprint := [], timeoutSeconds := 0 }

/-- Every call goes through. -/
def sampleChance : Chance :=
  { io := true, now := 7, outcome := none, ctxDone := false, giveUp := false, title := some [2]
    newId := [3], newStepIds := [[4], [5]], eligible := true }

/-- The process serves requests, and there are no runs. -/
def sampleStart : Sys :=
  { db := ⟨[]⟩, goroutines := [], requests := [], active := fun _ => none, stopping := false
    baseDone := false, up := true, history := fun _ => [] }

/-- A run of a connector action and a manual step is started, and executed until it waits. -/
def sampleEvents : List Event :=
  [.submit (.starting [6] [7] [sampleStep .connectorAction, sampleStep .manual]),
    .request 0 sampleChance, .request 0 sampleChance] ++
  List.replicate 13 (.goroutine 0 sampleChance)

def sampleSys : Option Sys := sampleEvents.foldlM Sys.step sampleStart

theorem sampleSys_reachable {s : Sys} (h : sampleSys = some s) : executor.Reachable s := by
  have hstart : executor.Reachable sampleStart := by
    refine .of_init ⟨.empty, ?_, rfl, fun _ => rfl, fun _ => rfl⟩
    simp [sampleStart]
  exact hstart.foldlM (fun _ _ _ hs => hs) h

theorem sequential_execution_sample : ∃ s r, sampleSys = some s ∧ r ∈ s.db.runs ∧
    r.state = .waitingManual ∧ ∃ x ∈ r.steps, x.state = .waiting := by
  have hstates : (sampleSys.map fun s => s.db.runs.map (·.state)) = some [.waitingManual] := by
    decide
  obtain ⟨s, hs, hruns⟩ := Option.map_eq_some_iff.1 hstates
  obtain ⟨r, hr, hstate⟩ : ∃ r ∈ s.db.runs, r.state = .waitingManual :=
    List.mem_map.1 (hruns ▸ List.mem_singleton_self _)
  have hall := sequential_execution (sampleSys_reachable hs) hr
  exact ⟨s, r, hs, hr, hstate, hall.2.2.2.2.1.2 hstate⟩

end WiseLabz.Runbook
