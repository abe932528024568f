/-
**The executor of runbook runs.**

Runs are executed by goroutines and asked for by requests.  A goroutine waits for the slot of its
run, and then reads the run, starts the first step that has not succeeded, performs it and records
the outcome, until there is nothing more to do; a request makes its transition in the store, waits
for the slot holder to stop and spawns a goroutine.  Every read and every write of the store is one
step of the machine, so between any two of them anything else may happen: other goroutines and
requests, expiry, shutdown, a crash with the recovery at the next startup.  Every read and write may
fail.

Main definitions:

* `Runbook.Pc`, `Runbook.Pc.next` — where a goroutine is, and its next step;
* `Runbook.RequestPc`, `Runbook.Sys.requestStep` — the same for a request;
* `Runbook.Sys`, `Runbook.Event`, `Runbook.Sys.step` — the state of the system, and its steps;
* `Runbook.executor` — the machine.

Main results:

* `Runbook.Sys.commit_history` — what a step adds to the history of a run;
* `Runbook.slot_exclusive` — **at most one goroutine executes a run**.
-/

import WiseLabz.Lib.Machine
import WiseLabz.Runbook.Calls
import Mathlib.Data.List.Basic
import Mathlib.Logic.Function.Basic

set_option relaxedAutoImplicit false
set_option autoImplicit false

namespace WiseLabz.Runbook

open Lib

/-! ### Goroutines -/

/-- Why a step did not succeed; without a state it has failed. -/
structure StepFailure where
  reason : Reason
  message : Bytes
  state : Option StepState
  deriving DecidableEq, Repr

/-- Why the executor gives up on a run. -/
inductive Cause
  | store (e : StoreError)
  | notStartable (stepId : Bytes) (state : StepState)
  deriving DecidableEq, Repr

/-- Where a goroutine is. -/
inductive Pc
  /-- Waiting for the slot of its run. -/
  | claiming
  /-- At the head of the loop of `execute`. -/
  | looping
  | readingRun
  | readingSteps (run : RunbookRunRecord)
  | pausing (step : RunbookRunStepRecord)
  | starting (run : RunbookRunRecord) (steps : List RunbookRunStepRecord)
      (step : RunbookRunStepRecord)
  /-- The start of the step is stored, and `perform` is about to be invoked. -/
  | started (run : RunbookRunRecord) (step : RunbookRunStepRecord) (last : Bool)
  | performing (run : RunbookRunRecord) (step : RunbookRunStepRecord) (last : Bool)
  | recordingSuccess (step : RunbookRunStepRecord) (last : Bool)
  | recordingFailure (step : RunbookRunStepRecord) (stepState : StepState) (failure : StepFailure)
  | failing (cause : Cause)
  | recordingFailed
  | finishing
  /-- `execute` has returned and the slot is still held. -/
  | returning
  | stopped
  deriving DecidableEq, Repr

/-- What the surroundings decide in a step: whether the store call goes through, the clock, the
outcome of `perform`, whether the context of a request is done, which of two ready channels is
taken, and what is found or chosen for a new run. -/
structure Chance where
  io : Bool
  now : ℕ
  outcome : Option StepFailure
  ctxDone : Bool
  giveUp : Bool
  title : Option Bytes
  newId : Bytes
  newStepIds : List Bytes
  eligible : Bool
  deriving DecidableEq, Repr

/-- A store call that may not go through. -/
def attempt {α : Type} (io : Bool) (x : Except StoreError α) : Except StoreError α :=
  if io then x else .error .unavailable

@[simp] theorem attempt_eq_ok {α : Type} {io : Bool} {x : Except StoreError α} {a : α} :
    attempt io x = .ok a ↔ io = true ∧ x = .ok a := by
  cases io <;> simp [attempt]

/-- The write was rejected because the run or step is no longer in the expected state. -/
def stateChanged : StoreError → Bool
  | .conflict | .notFound | .activeRun _ => true
  | _ => false

/-- The first step that has not succeeded. -/
def firstUnfinished (steps : List RunbookRunStepRecord) : Option RunbookRunStepRecord :=
  steps.find? fun s => s.state ≠ .succeeded

/-- Whether the step is the only one left to succeed. -/
def isLastUnfinished (steps : List RunbookRunStepRecord) (step : RunbookRunStepRecord) : Bool :=
  steps.all fun other => other.id = step.id || other.state = .succeeded

/-- How `runStep` begins. -/
def runStep (run : RunbookRunRecord) (steps : List RunbookRunStepRecord)
    (step : RunbookRunStepRecord) : Pc :=
  if step.kind = .manual then .pausing step
  else if startable step.state then .starting run steps step
  else if step.state = .running then
    -- left behind by an earlier failure: whether the connector call happened is not known
    .recordingFailure step .unknown
      ⟨.internalError, bytes "The step was left running by an earlier failure.", none⟩
  else .failing (.notStartable step.id step.state)

/-- How `execute` goes on with what it has read. -/
def execute (run : RunbookRunRecord) (steps : List RunbookRunStepRecord) : Pc :=
  if run.state ≠ .running then .returning
  else
    match firstUnfinished steps with
    | none => .finishing
    | some step => runStep run steps step

/-- A succeeded step whose result could not be stored is marked unknown. -/
def outcomeNotRecorded (step : RunbookRunStepRecord) : Pc :=
  .recordingFailure step .unknown
    ⟨.internalError, bytes "The step ran but its result could not be recorded.", none⟩

/-- **The next step of a goroutine** that holds the slot of run `runId`; `done` tells whether its
context is done. -/
def Pc.next (done : Bool) (runId : Bytes) (c : Chance) (db : Db) : Pc → Option (Pc × Db)
  | .claiming | .returning | .stopped => none
  | .looping => some (if done then .returning else .readingRun, db)
  | .readingRun =>
      match attempt c.io (lockRunbookRun db runId) with
      | .error e => some (.failing (.store e), db)
      | .ok r => some (.readingSteps r.toRunbookRunRecord, db)
  | .readingSteps run =>
      match attempt c.io (.ok ((db.run? runId).elim [] (·.steps))) with
      | .error e => some (.failing (.store e), db)
      | .ok steps => some (execute run steps, db)
  | .pausing step =>
      match attempt c.io (pauseRunbookRunOnManualStep db runId step.id c.now) with
      | .error e => some (.failing (.store e), db)
      | .ok (_, db') => some (.returning, db')
  | .starting run steps step =>
      match attempt c.io (updateRunbookRunStep db runId step.id step.state
        { state := some .running } c.now) with
      | .error e => some (if stateChanged e then .returning else .failing (.store e), db)
      | .ok (row, db') => some (.started run row (isLastUnfinished steps step), db')
  | .started run step last => some (.performing run step last, db)
  | .performing _ step last =>
      match c.outcome with
      | none => some (.recordingSuccess step last, db)
      | some failure =>
          -- after a cancel or shutdown the failure says nothing and is not recorded
          if done then some (.returning, db)
          else some (.recordingFailure step (failure.state.getD .failed) failure, db)
  | .recordingSuccess step true =>
      match attempt c.io (finishRunbookRun db runId step.id c.now) with
      | .error _ => some (outcomeNotRecorded step, db)
      | .ok (_, db') => some (.returning, db')
  | .recordingSuccess step false =>
      match attempt c.io (updateRunbookRunStep db runId step.id .running
        { state := some .succeeded } c.now) with
      | .error _ => some (outcomeNotRecorded step, db)
      | .ok (_, db') => some (.looping, db')
  | .recordingFailure step stepState failure =>
      match attempt c.io (failRunbookRunStep db runId step.id stepState failure.message
        failure.reason c.now) with
      | .error e => some (.failing (.store e), db)
      | .ok (_, db') => some (.returning, db')
  | .failing cause =>
      some (if done || cause = .store .notFound then .returning else .recordingFailed, db)
  | .recordingFailed =>
      match attempt c.io (updateRunbookRun db runId .running
        { state := some .failed, reason := some .internalError } c.now) with
      | .error _ => some (.returning, db)
      | .ok (_, db') => some (.returning, db')
  | .finishing =>
      match attempt c.io (updateRunbookRun db runId .running { state := some .succeeded } c.now) with
      | .error _ => some (.returning, db)
      | .ok (_, db') => some (.returning, db')

/-- What a step of a goroutine records besides the changes of states: `perform` is invoked. -/
def Pc.performed : Pc → List Entry
  | .started _ step _ => [.performed step.id step.startedAt]
  | _ => []

/-- A goroutine that executes a run; `cancelled` tells whether its own context was cancelled. -/
structure Goroutine where
  runId : Bytes
  pc : Pc
  cancelled : Bool
  deriving DecidableEq, Repr

/-! ### Requests -/

/-- What the caller of a resume saw; empty fields are not checked. -/
structure ResumeExpectation where
  stepId : Bytes
  updatedAt : Option ℕ
  deriving DecidableEq, Repr

/-- The errors of a request. -/
inductive RequestError
  | noActor
  | noEligibleApprover
  | decisionRequired
  | decisionFieldsRequired
  | runChanged
  | shuttingDown (runId : Bytes)
  | store (e : StoreError)
  deriving DecidableEq, Repr

/-- Where a request is. -/
inductive RequestPc
  | starting (runbookId userId : Bytes) (steps : List FrozenStep)
  | requesting (runbookId userId : Bytes) (steps : List FrozenStep)
  | approving (runId userId : Bytes)
  | rejecting (runId userId : Bytes)
  | confirming (runId stepId userId : Bytes)
  | cancelling (runId userId : Bytes)
  | resuming (runId userId : Bytes) (decision : ResumeDecision) (expect : ResumeExpectation)
      (requireFields : Bool)
  | resumingRead (run : RunbookRunRecord) (userId : Bytes) (decision : ResumeDecision)
      (expect : ResumeExpectation) (requireFields : Bool)
  | resumingFailed (run : RunbookRunRecord) (userId : Bytes) (applied : Option StepDecision)
      (expect : ResumeExpectation)
  | resumingMarkingDone (run : RunbookRunRecord) (stepId userId : Bytes)
      (applied : Option StepDecision) (expect : ResumeExpectation)
  /-- `cancelActive` is about to look up the slot holder. -/
  | cancellingActive (runId : Bytes)
  /-- `awaitStopped` is about to look up the slot holder. -/
  | stopping (runId : Bytes)
  | awaitingStopped (runId : Bytes) (holder : ℕ)
  | spawning (runId : Bytes)
  | failingShutdown (runId : Bytes)
  | returned (result : Option RequestError)
  deriving DecidableEq, Repr

/-- A request that has just arrived. -/
def RequestPc.isNew : RequestPc → Bool
  | .starting .. | .requesting .. | .approving .. | .rejecting .. | .confirming .. | .cancelling ..
  | .resuming .. => true
  | _ => false

/-- The acting user of a request that has just arrived. -/
def RequestPc.userId : RequestPc → Bytes
  | .starting _ u _ | .requesting _ u _ | .approving _ u | .rejecting _ u | .confirming _ _ u
  | .cancelling _ u | .resuming _ u _ _ _ => u
  | _ => []

/-- The revision the store compares: the one the caller saw, else the one just read. -/
def expectedUpdatedAt (observed : RunbookRunRecord) (expect : ResumeExpectation) : ℕ :=
  expect.updatedAt.getD observed.updatedAt

/-- A conflict is reported as a change when the caller gave an expectation. -/
def resumeConflict (e : StoreError) (expect : ResumeExpectation) : RequestError :=
  if e = .conflict ∧ (expect.updatedAt ≠ none ∨ expect.stepId ≠ []) then .runChanged else .store e

/-- How `resume` goes on with what it has read. -/
def resume (run : RunbookRunRecord) (steps : List RunbookRunStepRecord) (userId : Bytes)
    (decision : ResumeDecision) (expect : ResumeExpectation) (requireFields : Bool) : RequestPc :=
  if expect.updatedAt ≠ none ∧ expect.updatedAt ≠ some run.updatedAt then .returned (some .runChanged)
  else if run.state ≠ .failed then .returned (some (.store .conflict))
  else
    match firstUnfinished steps with
    | none =>
        if expect.stepId ≠ [] then .returned (some .runChanged)
        else .resumingFailed run userId none expect
    | some step =>
        if expect.stepId ≠ [] ∧ step.id ≠ expect.stepId then .returned (some .runChanged)
        else if resumeDecisionRequired step = false then .resumingFailed run userId none expect
        else if decision = .none then .returned (some .decisionRequired)
        else if requireFields ∧ (expect.stepId = [] ∨ expect.updatedAt = none) then
          .returned (some .decisionFieldsRequired)
        else if decision = .markDone then
          .resumingMarkingDone run step.id userId (some ⟨step.id, decision⟩) expect
        else .resumingFailed run userId (some ⟨step.id, decision⟩) expect

/-- The entry of a resume. -/
def resumedEntry (db : Db) (runId : Bytes) (applied : Option StepDecision) : Entry :=
  .resumed (((db.run? runId).bind fun r => firstUnfinished r.steps).map (·.id)) applied

/-- What a request that calls the store leaves: where it is, the tables, and the run whose history
has new entries. -/
structure RequestResult where
  pc : RequestPc
  db : Db
  runId : Bytes := []
  entries : List Entry := []

/-- **The next step of a request that calls the store.** -/
def RequestPc.next (c : Chance) (db : Db) : RequestPc → Option RequestResult
  | .starting runbookId userId steps =>
      match attempt c.io (createRunbookRunWithState db c.title c.newId c.newStepIds runbookId userId
        steps .running false c.now) with
      | .error e => some { pc := .returned (some (.store e)), db }
      | .ok (r, db') => some { pc := .spawning r.id, db := db' }
  | .requesting runbookId userId steps =>
      if c.eligible = false then some { pc := .returned (some .noEligibleApprover), db }
      else
        match attempt c.io (createRunbookRunWithState db c.title c.newId c.newStepIds runbookId
          userId steps .awaitingApproval true c.now) with
        | .error e => some { pc := .returned (some (.store e)), db }
        | .ok (_, db') => some { pc := .returned none, db := db' }
  | .approving runId userId =>
      match attempt c.io (approveRunbookRun db runId userId c.now) with
      | .error e => some { pc := .returned (some (.store e)), db }
      | .ok (_, db') => some { pc := .spawning runId, db := db', runId }
  | .rejecting runId userId =>
      match attempt c.io (rejectRunbookRun db runId userId c.now) with
      | .error e => some { pc := .returned (some (.store e)), db }
      | .ok (_, db') => some { pc := .returned none, db := db', runId }
  | .confirming runId stepId userId =>
      match attempt c.io (confirmRunbookRunStep db runId stepId userId c.now) with
      | .error e => some { pc := .returned (some (.store e)), db }
      | .ok (_, db') => some { pc := .stopping runId, db := db', runId }
  | .cancelling runId userId =>
      match attempt c.io (cancelRunbookRun db runId userId c.now) with
      | .error e => some { pc := .returned (some (.store e)), db }
      | .ok (_, db') => some { pc := .cancellingActive runId, db := db', runId }
  | .resuming runId userId decision expect requireFields =>
      match attempt c.io (lockRunbookRun db runId) with
      | .error e => some { pc := .returned (some (.store e)), db }
      | .ok r => some {
          pc := .resumingRead r.toRunbookRunRecord userId decision expect requireFields, db }
  | .resumingRead run userId decision expect requireFields =>
      match attempt c.io (.ok ((db.run? run.id).elim [] (·.steps))) with
      | .error e => some { pc := .returned (some (.store e)), db }
      | .ok steps => some { pc := resume run steps userId decision expect requireFields, db }
  | .resumingFailed run userId applied expect =>
      match attempt c.io (resumeRunbookRun db run.id (expectedUpdatedAt run expect) expect.stepId
        false userId c.now) with
      | .error e => some { pc := .returned (some (resumeConflict e expect)), db }
      | .ok (_, db') => some {
          pc := .stopping run.id, db := db', runId := run.id
          entries := [resumedEntry db run.id applied] }
  | .resumingMarkingDone run stepId userId applied expect =>
      match attempt c.io (resumeRunbookRunMarkingStepDone db run.id (expectedUpdatedAt run expect)
        stepId userId c.now) with
      | .error e => some { pc := .returned (some (resumeConflict e expect)), db }
      | .ok (_, db') => some {
          pc := .stopping run.id, db := db', runId := run.id
          entries := [resumedEntry db run.id applied] }
  | .failingShutdown runId =>
      match attempt c.io (updateRunbookRun db runId .running
        { state := some .failed, reason := some .interrupted } c.now) with
      | .error _ => some { pc := .returned (some (.shuttingDown runId)), db }
      | .ok (_, db') => some { pc := .returned (some (.shuttingDown runId)), db := db', runId }
  | _ => none

/-! ### The system -/

/-- The state of the system.  `active` is the registry of slot holders, `baseDone` tells whether the
context of all goroutines is done, `stopping` whether new ones are refused, and `up` whether the
process serves requests.  `history` is not stored anywhere: it records what has happened to each
run. -/
structure Sys where
  db : Db
  goroutines : List Goroutine
  requests : List RequestPc
  active : Bytes → Option ℕ
  stopping : Bool
  baseDone : Bool
  up : Bool
  history : Bytes → List Entry

/-- What happens to the system. -/
inductive Event
  | submit (pc : RequestPc)
  | request (q : ℕ) (c : Chance)
  | goroutine (i : ℕ) (c : Chance)
  | expireOpen (before : Option ℕ) (clock : Bytes → ℕ) (io : Bool)
  | expireAwaiting (before : Option ℕ) (clock : Bytes → ℕ) (io : Bool)
  /-- Shutdown: new goroutines are refused. -/
  | stop
  /-- Shutdown: the context of all goroutines is cancelled. -/
  | cancelBase
  | crash
  /-- Startup: recovery, after which requests are served. -/
  | recover (clock : Bytes → ℕ) (io : Bool)

/-- The system with new tables, and `extra` in the history of run `runId`. -/
def Sys.commit (s : Sys) (db' : Db) (runId : Bytes) (extra : List Entry) : Sys :=
  { s with
    db := db'
    history := fun id =>
      s.history id ++ (if id = runId then extra else []) ++ changesOf s.db db' id }

/-- Whether the context of a goroutine is done. -/
def Sys.ctxDone (s : Sys) (g : Goroutine) : Bool := g.cancelled || s.baseDone

/-- **A step of a goroutine.** -/
def Sys.goroutineStep (s : Sys) (i : ℕ) (c : Chance) : Option Sys :=
  match s.goroutines[i]? with
  | none => none
  | some g =>
      match g.pc with
      | .claiming =>
          if s.ctxDone g && c.giveUp && (s.active g.runId).isSome then
            some { s with goroutines := s.goroutines.set i { g with pc := .stopped } }
          else
            match s.active g.runId with
            | some _ => none
            | none => some { s with
                goroutines := s.goroutines.set i { g with pc := .looping }
                active := Function.update s.active g.runId (some i) }
      | .returning => some { s with
          goroutines := s.goroutines.set i { g with pc := .stopped }
          active := Function.update s.active g.runId none }
      | pc =>
          match pc.next (s.ctxDone g) g.runId c s.db with
          | none => none
          | some (pc', db') =>
              some ({ s with goroutines := s.goroutines.set i { g with pc := pc' } }.commit db'
                g.runId pc.performed)

/-- The system after a request has moved on. -/
def Sys.setRequest (s : Sys) (q : ℕ) (pc : RequestPc) : Sys :=
  { s with requests := s.requests.set q pc }

/-- **A step of a request.** -/
def Sys.requestStep (s : Sys) (q : ℕ) (c : Chance) : Option Sys :=
  match s.requests[q]? with
  | none => none
  | some pc =>
      if pc.isNew ∧ pc.userId = [] then some (s.setRequest q (.returned (some .noActor)))
      else
        match pc with
        | .cancellingActive runId =>
            match s.active runId with
            | none => some (s.setRequest q (.returned none))
            | some i => some { s.setRequest q (.returned none) with
                goroutines := s.goroutines.modify i fun g => { g with cancelled := true } }
        | .stopping runId =>
            match s.active runId with
            | none => some (s.setRequest q (.spawning runId))
            | some i => some (s.setRequest q (.awaitingStopped runId i))
        | .awaitingStopped runId holder =>
            if c.ctxDone ∨ (s.goroutines[holder]?.map (·.pc)) = some .stopped then
              some (s.setRequest q (.spawning runId))
            else none
        | .spawning runId =>
            if s.stopping then some (s.setRequest q (.failingShutdown runId))
            else some { s.setRequest q (.returned none) with
              goroutines := s.goroutines ++ [⟨runId, .claiming, false⟩] }
        | pc =>
            match pc.next c s.db with
            | none => none
            | some result =>
                some ((s.setRequest q result.pc).commit result.db result.runId result.entries)

/-- **A step of the system.** -/
def Sys.step (s : Sys) : Event → Option Sys
  | .submit pc =>
      if s.up ∧ pc.isNew then some { s with requests := s.requests ++ [pc] } else none
  | .request q c => s.requestStep q c
  | .goroutine i c => s.goroutineStep i c
  | .expireOpen before clock io =>
      if s.up ∧ io then some (s.commit (expireOpenRunbookRuns s.db before clock) [] []) else none
  | .expireAwaiting before clock io =>
      if s.up ∧ io then
        some (s.commit (expireAwaitingApprovalRunbookRuns s.db before clock) [] [])
      else none
  | .stop => some { s with stopping := true }
  | .cancelBase => some { s with baseDone := true }
  | .crash => some { s with
      goroutines := [], requests := [], active := fun _ => none
      stopping := false, baseDone := false, up := false }
  | .recover clock io =>
      -- when recovery fails, startup fails
      if s.up then none
      else if io then
        some ({ s with up := true }.commit (interruptRunningRunbookRuns s.db clock) [] [])
      else some s

/-- The tables that creating runs leads to. -/
inductive Created : Db → Prop
  | empty : Created ⟨[]⟩
  | create {db db' : Db} {title : Option Bytes} {newId : Bytes} {newStepIds : List Bytes}
      {runbookId startedBy : Bytes} {steps : List FrozenStep} {initialState : RunState}
      {requiresApproval : Bool} {now : ℕ} {r : RunbookRun} (created : Created db)
      (h : createRunbookRunWithState db title newId newStepIds runbookId startedBy steps
        initialState requiresApproval now = .ok (r, db')) : Created db'

/-- The system starts with runs that have just been created, and goroutines that have just been
spawned for any of them. -/
def Sys.Initial (s : Sys) : Prop :=
  Created s.db ∧ (∀ g ∈ s.goroutines, g.pc = .claiming) ∧ s.requests = [] ∧
    (∀ id, s.active id = none) ∧ ∀ id, s.history id = []

/-- **The machine**: goroutines, requests, expiry, shutdown, crashes and recovery in any order. -/
def executor : Machine Sys Event where
  init := Sys.Initial
  step s a t := s.step a = some t

/-! ### What a step adds to a history -/

@[simp] theorem Sys.commit_db (s : Sys) (db' : Db) (runId : Bytes) (extra : List Entry) :
    (s.commit db' runId extra).db = db' := rfl

@[simp] theorem Sys.commit_goroutines (s : Sys) (db' : Db) (runId : Bytes) (extra : List Entry) :
    (s.commit db' runId extra).goroutines = s.goroutines := rfl

@[simp] theorem Sys.commit_requests (s : Sys) (db' : Db) (runId : Bytes) (extra : List Entry) :
    (s.commit db' runId extra).requests = s.requests := rfl

@[simp] theorem Sys.commit_active (s : Sys) (db' : Db) (runId : Bytes) (extra : List Entry) :
    (s.commit db' runId extra).active = s.active := rfl

theorem Sys.commit_history (s : Sys) (db' : Db) (runId : Bytes) (extra : List Entry) (id : Bytes) :
    (s.commit db' runId extra).history id =
      s.history id ++ (if id = runId then extra else []) ++ changesOf s.db db' id := rfl

/-! ### The slot of a run -/

/-- A goroutine that holds the slot of its run. -/
def Pc.holdsSlot (pc : Pc) : Prop := pc ≠ .claiming ∧ pc ≠ .stopped

/-- The registry names every goroutine that holds a slot. -/
def Registered (s : Sys) : Prop :=
  ∀ i g, s.goroutines[i]? = some g → g.pc.holdsSlot → s.active g.runId = some i

/-- What a goroutine holds while it executes. -/
theorem Pc.holdsSlot_of_next {pc pc' : Pc} {done : Bool} {runId : Bytes} {c : Chance} {db db' : Db}
    (h : pc.next done runId c db = some (pc', db')) : pc.holdsSlot := by
  constructor <;> rintro rfl <;> simp [Pc.next] at h

theorem Registered.set {s : Sys} (h : Registered s) {i : ℕ} {g : Goroutine}
    (hg : s.goroutines[i]? = some g) {pc : Pc} (hold : pc.holdsSlot → g.pc.holdsSlot) :
    ∀ j g', (s.goroutines.set i { g with pc := pc })[j]? = some g' → g'.pc.holdsSlot →
      s.active g'.runId = some j := by
  intro j g' hj hslot
  by_cases hij : i = j
  · subst hij
    rw [List.getElem?_set_self (List.getElem?_eq_some_iff.1 hg).1] at hj
    obtain rfl := Option.some.inj hj
    exact h i g hg (hold hslot)
  · rw [List.getElem?_set_ne hij] at hj
    exact h j g' hj hslot

/-- What a step of a goroutine does. -/
theorem Sys.goroutineStep_cases {s t : Sys} {i : ℕ} {c : Chance}
    (h : s.goroutineStep i c = some t) :
    ∃ g, s.goroutines[i]? = some g ∧
      ((g.pc = .claiming ∧
          t = { s with goroutines := s.goroutines.set i { g with pc := .stopped } }) ∨
        (g.pc = .claiming ∧ s.active g.runId = none ∧
          t = { s with
            goroutines := s.goroutines.set i { g with pc := .looping }
            active := Function.update s.active g.runId (some i) }) ∨
        (g.pc = .returning ∧
          t = { s with
            goroutines := s.goroutines.set i { g with pc := .stopped }
            active := Function.update s.active g.runId none }) ∨
        ∃ pc' db', g.pc.next (s.ctxDone g) g.runId c s.db = some (pc', db') ∧
          t = { s with goroutines := s.goroutines.set i { g with pc := pc' } }.commit db' g.runId
            g.pc.performed) := by
  unfold Sys.goroutineStep at h
  split at h
  · cases h
  · next g hg =>
      refine ⟨g, hg, ?_⟩
      split at h
      · next hpc =>
          by_cases hgive : (s.ctxDone g && c.giveUp && (s.active g.runId).isSome) = true
          · rw [if_pos hgive] at h
            exact Or.inl ⟨hpc, (Option.some.inj h).symm⟩
          · rw [if_neg hgive] at h
            split at h
            · cases h
            · next hfree => exact Or.inr (Or.inl ⟨hpc, hfree, (Option.some.inj h).symm⟩)
      · next hpc => exact Or.inr (Or.inr (Or.inl ⟨hpc, (Option.some.inj h).symm⟩))
      · next pc hclaiming hreturning =>
          split at h
          · cases h
          · next pc' db' hnext =>
              exact Or.inr (Or.inr (Or.inr ⟨pc', db', hnext, (Option.some.inj h).symm⟩))

theorem Registered.goroutineStep {s t : Sys} {i : ℕ} {c : Chance} (h : Registered s)
    (hs : s.goroutineStep i c = some t) : Registered t := by
  obtain ⟨g, hg, ⟨hpc, rfl⟩ | ⟨hpc, hfree, rfl⟩ | ⟨hpc, rfl⟩ | ⟨pc', db', hnext, rfl⟩⟩ :=
    Sys.goroutineStep_cases hs
  · exact h.set hg fun hslot => absurd rfl hslot.2
  · intro j g' hj hslot
    by_cases hij : i = j
    · subst hij
      rw [List.getElem?_set_self (List.getElem?_eq_some_iff.1 hg).1] at hj
      obtain rfl := Option.some.inj hj
      simp
    · rw [List.getElem?_set_ne hij] at hj
      have hheld := h j g' hj hslot
      have hrun : g'.runId ≠ g.runId := by
        intro heq
        rw [heq, hfree] at hheld
        cases hheld
      simpa [Function.update_of_ne hrun] using hheld
  · intro j g' hj hslot
    by_cases hij : i = j
    · subst hij
      rw [List.getElem?_set_self (List.getElem?_eq_some_iff.1 hg).1] at hj
      obtain rfl := Option.some.inj hj
      exact absurd rfl hslot.2
    · rw [List.getElem?_set_ne hij] at hj
      have hheld := h j g' hj hslot
      have hrun : g'.runId ≠ g.runId := by
        intro heq
        have hown := h i g hg (by rw [hpc]; exact ⟨by simp, by simp⟩)
        rw [heq, hown] at hheld
        exact hij (Option.some.inj hheld)
      simpa [Function.update_of_ne hrun] using hheld
  · exact h.set hg fun _ => Pc.holdsSlot_of_next hnext

/-- A request that holds nothing it has read. -/
def RequestPc.plain : RequestPc → Bool
  | .resumingRead .. | .resumingFailed .. | .resumingMarkingDone .. => false
  | _ => true

/-- The goroutines after a step of a request that calls no store: as they were, with a new one, or
with one cancelled. -/
def Spawned (gs gs' : List Goroutine) : Prop :=
  gs' = gs ∨ (∃ runId, gs' = gs ++ [⟨runId, .claiming, false⟩]) ∨
    ∃ i, gs' = gs.modify i fun g => { g with cancelled := true }

/-- What a step of a request does. -/
theorem Sys.requestStep_cases {s t : Sys} {q : ℕ} {c : Chance} (h : s.requestStep q c = some t) :
    ∃ pc, s.requests[q]? = some pc ∧
      ((∃ pc' gs, pc'.plain = true ∧ Spawned s.goroutines gs ∧
          t = { s.setRequest q pc' with goroutines := gs }) ∨
        ∃ result, pc.next c s.db = some result ∧
          t = (s.setRequest q result.pc).commit result.db result.runId result.entries) := by
  unfold Sys.requestStep at h
  split at h
  · cases h
  · next pc hpc =>
      refine ⟨pc, hpc, ?_⟩
      have hquiet : ∀ pc', pc'.plain = true → t = s.setRequest q pc' →
          ∃ pc' gs, pc'.plain = true ∧ Spawned s.goroutines gs ∧
            t = { s.setRequest q pc' with goroutines := gs } :=
        fun pc' hplain ht => ⟨pc', s.goroutines, hplain, Or.inl rfl, ht⟩
      split at h
      · exact Or.inl (hquiet _ rfl (Option.some.inj h).symm)
      · split at h
        case h_1 =>
          refine Or.inl ?_
          split at h
          · exact hquiet _ rfl (Option.some.inj h).symm
          · next i hi =>
              exact ⟨_, _, rfl, Or.inr (Or.inr ⟨i, rfl⟩), (Option.some.inj h).symm⟩
        case h_2 =>
          refine Or.inl ?_
          split at h <;> exact hquiet _ rfl (Option.some.inj h).symm
        case h_3 =>
          split at h
          · exact Or.inl (hquiet _ rfl (Option.some.inj h).symm)
          · cases h
        case h_4 =>
          refine Or.inl ?_
          split at h
          · exact hquiet _ rfl (Option.some.inj h).symm
          · exact ⟨_, _, rfl, Or.inr (Or.inl ⟨_, rfl⟩), (Option.some.inj h).symm⟩
        case h_5 =>
          split at h
          · cases h
          · next result hnext =>
              exact Or.inr ⟨result, hnext, (Option.some.inj h).symm⟩

/-- The goroutines that a request leaves are old ones, or wait for their slot. -/
theorem Spawned.getElem? {gs gs' : List Goroutine} (h : Spawned gs gs') {i : ℕ} {g' : Goroutine}
    (hi : gs'[i]? = some g') :
    g'.pc = .claiming ∨ ∃ g, gs[i]? = some g ∧ g'.runId = g.runId ∧ g'.pc = g.pc := by
  obtain rfl | ⟨runId, rfl⟩ | ⟨j, rfl⟩ := h
  · exact Or.inr ⟨g', hi, rfl, rfl⟩
  · rw [List.getElem?_append] at hi
    split at hi
    · exact Or.inr ⟨g', hi, rfl, rfl⟩
    · rw [List.getElem?_singleton] at hi
      split at hi
      · obtain rfl := Option.some.inj hi
        exact Or.inl rfl
      · cases hi
  · rw [List.getElem?_modify] at hi
    cases hg : gs[i]? with
    | none => simp [hg] at hi
    | some g =>
        rw [hg, Option.map_eq_map, Option.map_some] at hi
        obtain rfl := Option.some.inj hi
        refine Or.inr ⟨g, rfl, ?_, ?_⟩ <;> split <;> rfl

theorem Registered.requestStep {s t : Sys} {q : ℕ} {c : Chance} (h : Registered s)
    (hs : s.requestStep q c = some t) : Registered t := by
  obtain ⟨pc, -, ⟨pc', gs, -, hgs, rfl⟩ | ⟨result, -, rfl⟩⟩ := Sys.requestStep_cases hs
  · intro i g' hi hslot
    rcases hgs.getElem? hi with hpc | ⟨g, hg, hrun, hpc⟩
    · exact absurd hpc hslot.1
    · rw [hrun]
      exact h i g hg (hpc ▸ hslot)
  · exact h

/-- The registry names the slot holders of every reachable state. -/
theorem registered_reachable {s : Sys} (h : executor.Reachable s) : Registered s := by
  refine h.invariant ?_ ?_
  · rintro s ⟨-, hclaiming, -⟩ i g hg hslot
    exact absurd (hclaiming g (List.mem_of_getElem? hg)) hslot.1
  · intro s a t hinv hstep
    change s.step a = some t at hstep
    cases a with
    | goroutine i c => exact hinv.goroutineStep hstep
    | request q c => exact hinv.requestStep hstep
    | submit pc | expireOpen before clock io | expireAwaiting before clock io =>
        simp only [Sys.step] at hstep
        split at hstep
        · obtain rfl := Option.some.inj hstep
          exact hinv
        · cases hstep
    | stop | cancelBase =>
        obtain rfl := Option.some.inj hstep
        exact hinv
    | crash =>
        obtain rfl := Option.some.inj hstep
        intro i g hg
        simp at hg
    | recover clock io =>
        simp only [Sys.step] at hstep
        split at hstep
        · cases hstep
        · split at hstep <;> obtain rfl := Option.some.inj hstep <;> exact hinv

/-- **At most one goroutine executes a run.** -/
theorem slot_exclusive {s : Sys} (h : executor.Reachable s) {i j : ℕ} {g g' : Goroutine}
    (hi : s.goroutines[i]? = some g) (hj : s.goroutines[j]? = some g')
    (hslot : g.pc.holdsSlot) (hslot' : g'.pc.holdsSlot) (hrun : g.runId = g'.runId) : i = j := by
  have hg := registered_reachable h i g hi hslot
  have hg' := registered_reachable h j g' hj hslot'
  rw [hrun, hg'] at hg
  exact (Option.some.inj hg).symm

end WiseLabz.Runbook
