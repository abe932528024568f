/-
**Runbook runs and the store calls that change them.**

A run is a row and its frozen steps, in the order of their positions.  Every call is one transaction
that locks the row of the run first, so it is a function from the tables to the tables after it, or
an error and no tables.  Clock readings, the ids of new rows and what is read from other tables are
arguments.

Main definitions:

* `Runbook.RunbookRunRecord`, `Runbook.RunbookRunStepRecord`, `Runbook.RunbookRun`, `Runbook.Db` —
  the rows, a run with its steps, and the tables;
* `Runbook.createRunbookRunWithState`, `Runbook.approveRunbookRun`, `Runbook.rejectRunbookRun`,
  `Runbook.updateRunbookRun`, `Runbook.updateRunbookRunStep`, `Runbook.confirmRunbookRunStep`,
  `Runbook.transitionRunbookRunWithStep`, `Runbook.cancelRunbookRun`, `Runbook.resumeRunbookRun` —
  the calls on one run;
* `Runbook.interruptRunningRunbookRuns`, `Runbook.expireOpenRunbookRuns`,
  `Runbook.expireAwaitingApprovalRunbookRuns`, `Runbook.pruneRunbookRuns` — the calls on every run
  in some state.

Main results:

* `Runbook.withinTransaction_eq_ok` — what a successful call on a run has found and written;
* `Runbook.updateRunbookRunStepRow_eq_ok` — a guarded step update replaces one step.
-/

import WiseLabz.Lib.Bytes
import WiseLabz.Lib.Cursor
import WiseLabz.Lib.Fallible

set_option relaxedAutoImplicit false
set_option autoImplicit false

namespace WiseLabz.Runbook

open Lib

/-! ### Rows -/

/-- The state of a run. -/
inductive RunState
  | running
  | waitingManual
  | failed
  | succeeded
  | cancelled
  | expired
  | awaitingApproval
  | rejected
  deriving DecidableEq, Repr

/-- The state of a step. -/
inductive StepState
  | pending
  | running
  | waiting
  | succeeded
  | failed
  | skipped
  | unknown
  deriving DecidableEq, Repr

/-- What a step does. -/
inductive StepKind
  | lifecycle
  | syncAndWait
  | waitUntilHealthy
  | manual
  | configPush
  | waitForEntity
  | connectorAction
  deriving DecidableEq, Repr

/-- The reason recorded on a failed or expired run. -/
inductive Reason
  | empty
  | interrupted
  | stepFailed
  | stepTimeout
  | permissionDenied
  | internalError
  | approvalExpired
  deriving DecidableEq, Repr

/-- The authored part of a step, frozen when the run is created. -/
structure FrozenStep where
  kind : StepKind
  title : Bytes
  connectorId : Bytes
  verb : Bytes
  entityRef : Bytes
  fieldKey : Bytes
  targetValue : Bytes
  attributeName : Bytes
  operator : Bytes
  expectedValue : Bytes
  action : Bytes
  actionFingerprint : Bytes
  timeoutSeconds : ℤ
  deriving DecidableEq, Repr

/-- One frozen step and its execution state.  An empty text stands for NULL, and times are in
nanoseconds. -/
structure RunbookRunStepRecord extends FrozenStep where
  id : Bytes
  position : ℕ
  state : StepState
  startedAt : Option ℕ
  finishedAt : Option ℕ
  error : Bytes
  confirmedBy : Bytes
  deriving DecidableEq, Repr

/-- The row of a run. -/
structure RunbookRunRecord where
  id : Bytes
  /-- Empty once the authored runbook is deleted. -/
  runbookId : Bytes
  runbookTitle : Bytes
  state : RunState
  reason : Reason
  startedBy : Bytes
  resumedBy : Bytes
  cancelledBy : Bytes
  requiresApproval : Bool
  approvedBy : Bytes
  approvedAt : Option ℕ
  rejectedBy : Bytes
  startedAt : ℕ
  updatedAt : ℕ
  finishedAt : Option ℕ
  deriving DecidableEq, Repr

/-- A run: its row and, in the order of their positions, its steps.  Every statement on steps is
confined to the steps of one run, so they are kept with it. -/
structure RunbookRun extends RunbookRunRecord where
  steps : List RunbookRunStepRecord
  deriving DecidableEq, Repr

/-- The tables. -/
structure Db where
  runs : List RunbookRun
  deriving DecidableEq, Repr

/-- The errors of the calls. -/
inductive StoreError
  | notFound
  | conflict
  /-- The active run that prevents a second one of the same runbook. -/
  | activeRun (runId : Bytes)
  | stepCount
  | unsupported
  | noFields
  | constraint
  /-- The database could not be read or written. -/
  | unavailable
  deriving DecidableEq, Repr

/-- The run with an id. -/
def Db.run? (db : Db) (id : Bytes) : Option RunbookRun := db.runs.find? fun r => r.id = id

/-- The tables with another version of the run. -/
def Db.put (db : Db) (id : Bytes) (r : RunbookRun) : Db :=
  ⟨db.runs.map fun r' => if r'.id = id then r else r'⟩

theorem Db.run?_eq_some {db : Db} {id : Bytes} {r : RunbookRun} (h : db.run? id = some r) :
    r ∈ db.runs ∧ r.id = id :=
  ⟨List.mem_of_find?_eq_some h, by simpa using List.find?_some h⟩

/-- Rewriting the runs, each under its id. -/
theorem Db.run?_map {db : Db} {f : RunbookRun → RunbookRun} (hf : ∀ r, (f r).id = r.id)
    (id : Bytes) : (Db.mk (db.runs.map f)).run? id = (db.run? id).map f := by
  rw [Db.run?, Db.run?, List.find?_map]
  congr 2
  funext r
  simp [hf r]

/-- Putting another version of a run. -/
theorem Db.run?_put {db : Db} {id : Bytes} {r r' : RunbookRun} (hr : db.run? id = some r)
    (hid : r'.id = id) (id' : Bytes) :
    (db.put id r').run? id' = if id' = id then some r' else db.run? id' := by
  have hf : ∀ r₀ : RunbookRun, (if r₀.id = id then r' else r₀).id = r₀.id := by
    intro r₀
    split
    · next h => rw [hid, h]
    · rfl
  rw [Db.put, Db.run?_map hf]
  split
  · next h =>
      rw [h, hr, Option.map_some, if_pos (Db.run?_eq_some hr).2]
  · next h =>
      cases hr' : db.run? id' with
      | none => rfl
      | some r₀ =>
          rw [Option.map_some, if_neg]
          rw [(Db.run?_eq_some hr').2]
          exact h

/-- Rewriting the runs, each under its id, keeps the ids. -/
theorem map_id_eq {runs : List RunbookRun} {f : RunbookRun → RunbookRun}
    (hf : ∀ r, (f r).id = r.id) : (runs.map f).map (·.id) = runs.map (·.id) := by
  rw [List.map_map]
  exact List.map_congr_left fun r _ => hf r

/-- A run of the tables is found under its id. -/
theorem run?_of_mem {db : Db} (hdistinct : (db.runs.map (·.id)).Nodup) {r : RunbookRun}
    (hr : r ∈ db.runs) : db.run? r.id = some r := by
  cases hfind : db.run? r.id with
  | none =>
      have := List.find?_eq_none.1 hfind r hr
      simp at this
  | some r' =>
      obtain ⟨hr', hid⟩ := Db.run?_eq_some hfind
      rw [List.inj_on_of_nodup_map hdistinct hr' hr hid]

def isOpenRunbookRunState (state : RunState) : Bool :=
  state = .running || state = .waitingManual || state = .failed || state = .awaitingApproval

def isTerminalRunbookRunState (state : RunState) : Bool :=
  state = .succeeded || state = .cancelled || state = .expired || state = .rejected

/-- The revision that a write gives a run, as instants before the year 10000: the time of the clock,
or the next nanosecond when the clock has not passed the last revision. -/
def nextRunbookRunTimestamp (previous now : ℕ) : ℕ := if now ≤ previous then previous + 1 else now

theorem lt_nextRunbookRunTimestamp (previous now : ℕ) :
    previous < nextRunbookRunTimestamp previous now := by
  unfold nextRunbookRunTimestamp
  split <;> omega

/-! ### Transactions on one run -/

def lockRunbookRun (db : Db) (id : Bytes) : Except StoreError RunbookRun :=
  match db.run? id with
  | none => .error .notFound
  | some r => .ok r

/-- A transaction that locks a run and rewrites it. -/
def withinTransaction {β : Type} (db : Db) (id : Bytes)
    (body : RunbookRun → Except StoreError (RunbookRun × β)) : Except StoreError (β × Db) := do
  let current ← lockRunbookRun db id
  let (r, result) ← body current
  return (result, db.put id r)

/-- **What a successful call on a run has found and written.** -/
theorem withinTransaction_eq_ok {β : Type} {db db' : Db} {id : Bytes}
    {body : RunbookRun → Except StoreError (RunbookRun × β)} {result : β} :
    withinTransaction db id body = .ok (result, db') ↔
      ∃ r r', db.run? id = some r ∧ body r = .ok (r', result) ∧ db' = db.put id r' := by
  simp only [withinTransaction, lockRunbookRun]
  cases db.run? id with
  | none => simp [bind, Except.bind]
  | some r =>
      cases hb : body r with
      | error e => simp [hb, bind, Except.bind]
      | ok p =>
          obtain ⟨r', b⟩ := p
          simp only [bind, Except.bind, hb, pure, Except.pure, Except.ok.injEq, Prod.mk.injEq,
            Option.some.injEq]
          constructor
          · rintro ⟨rfl, rfl⟩
            exact ⟨r, r', rfl, hb, rfl⟩
          · rintro ⟨r₀, r₁, rfl, hb', rfl⟩
            rw [hb] at hb'
            simp only [Except.ok.injEq, Prod.mk.injEq] at hb'
            exact ⟨hb'.2, by rw [hb'.1]⟩

/-! ### Field updates -/

/-- The fields a run update may set; `some none` sets a time to NULL. -/
structure RunUpdates where
  state : Option RunState := none
  reason : Option Reason := none
  resumedBy : Option Bytes := none
  cancelledBy : Option Bytes := none
  finishedAt : Option (Option ℕ) := none
  deriving DecidableEq, Repr

/-- The fields a step update may set. -/
structure StepUpdates where
  state : Option StepState := none
  startedAt : Option (Option ℕ) := none
  finishedAt : Option (Option ℕ) := none
  error : Option Bytes := none
  confirmedBy : Option Bytes := none
  deriving DecidableEq, Repr

/-- The fields that a new run state implies. -/
def normalizedRunbookRunUpdates (updates : RunUpdates) (now : ℕ) : RunUpdates :=
  match updates.state with
  | some .running =>
      { updates with
        reason := some (updates.reason.getD .empty)
        finishedAt := some (updates.finishedAt.getD none) }
  | some .succeeded =>
      -- an empty time would make the finished run unprunable
      { updates with finishedAt := some (some ((updates.finishedAt.getD none).getD now)) }
  | _ => updates

/-- The fields that a new step state implies. -/
def normalizedRunbookRunStepUpdates (updates : StepUpdates) (expectedState : StepState)
    (now : ℕ) : StepUpdates :=
  match updates.state with
  | none => updates
  | some .pending => updates
  | some .running =>
      { updates with
        startedAt :=
          if updates.startedAt = none ∧
              (expectedState = .pending ∨ expectedState = .failed ∨ expectedState = .unknown) then
            some (some now)
          else updates.startedAt
        finishedAt := some (updates.finishedAt.getD none)
        error := some (updates.error.getD []) }
  | some state =>
      { updates with
        startedAt :=
          if updates.startedAt = none ∧ state = .waiting ∧ expectedState = .pending then
            some (some now)
          else updates.startedAt
        finishedAt :=
          if updates.finishedAt = none ∧ state ≠ .waiting then some (some now)
          else updates.finishedAt }

/-- The run row with the fields set. -/
def RunUpdates.set (u : RunUpdates) (r : RunbookRun) (now : ℕ) : RunbookRun :=
  { r with
    state := u.state.getD r.state
    reason := u.reason.getD r.reason
    resumedBy := u.resumedBy.getD r.resumedBy
    cancelledBy := u.cancelledBy.getD r.cancelledBy
    finishedAt := u.finishedAt.getD r.finishedAt
    updatedAt := now }

/-- The step row with the fields set. -/
def StepUpdates.set (u : StepUpdates) (s : RunbookRunStepRecord) : RunbookRunStepRecord :=
  { s with
    state := u.state.getD s.state
    startedAt := u.startedAt.getD s.startedAt
    finishedAt := u.finishedAt.getD s.finishedAt
    error := u.error.getD s.error
    confirmedBy := u.confirmedBy.getD s.confirmedBy }

/-- The guarded update of a run row. -/
def updateRunbookRunRow (r : RunbookRun) (expectedState : RunState) (updates : RunUpdates)
    (now : ℕ) : Except StoreError RunbookRun :=
  if updates = {} then .error .noFields
  else if r.state ≠ expectedState then .error .conflict
  else .ok (updates.set r now)

/-- The guarded update of a step row: exactly one row must be in the expected state. -/
def updateRunbookRunStepRow (steps : List RunbookRunStepRecord) (stepId : Bytes)
    (expectedState : StepState) (updates : StepUpdates) :
    Except StoreError (List RunbookRunStepRecord) :=
  if updates = {} then .error .noFields
  else if steps.countP (fun s => s.id = stepId ∧ s.state = expectedState) ≠ 1 then .error .conflict
  else .ok (steps.map fun s =>
    if s.id = stepId ∧ s.state = expectedState then updates.set s else s)

/-- A normalised update sets the run state it was given. -/
@[simp] theorem normalizedRunbookRunUpdates_state (u : RunUpdates) (now : ℕ) :
    (normalizedRunbookRunUpdates u now).state = u.state := by
  unfold normalizedRunbookRunUpdates
  split <;> rfl

/-- A normalised update sets the step state it was given. -/
@[simp] theorem normalizedRunbookRunStepUpdates_state (u : StepUpdates) (e : StepState) (now : ℕ) :
    (normalizedRunbookRunStepUpdates u e now).state = u.state := by
  unfold normalizedRunbookRunStepUpdates
  split <;> simp_all

theorem updateRunbookRunRow_eq_ok {r r' : RunbookRun} {expectedState : RunState}
    {updates : RunUpdates} {now : ℕ}
    (h : updateRunbookRunRow r expectedState updates now = .ok r') :
    r.state = expectedState ∧ r' = updates.set r now := by
  rw [updateRunbookRunRow, ite_error_eq_ok, ite_error_eq_ok] at h
  obtain ⟨-, hstate, h⟩ := h
  exact ⟨not_not.1 hstate, (Except.ok.inj h).symm⟩

/-- **A guarded step update replaces one step**, the one in the expected state. -/
theorem updateRunbookRunStepRow_eq_ok {steps steps' : List RunbookRunStepRecord} {stepId : Bytes}
    {expectedState : StepState} {updates : StepUpdates}
    (h : updateRunbookRunStepRow steps stepId expectedState updates = .ok steps') :
    ∃ pre s post, steps = pre ++ s :: post ∧ s.id = stepId ∧ s.state = expectedState ∧
      steps' = pre ++ updates.set s :: post := by
  rw [updateRunbookRunStepRow, ite_error_eq_ok, ite_error_eq_ok] at h
  obtain ⟨-, hcount, h⟩ := h
  obtain ⟨pre, s, post, rfl, hs, hpre, hpost⟩ := exists_split_of_countP_eq_one (not_not.1 hcount)
  obtain ⟨hid, hstate⟩ := of_decide_eq_true hs
  refine ⟨pre, s, post, rfl, hid, hstate, ?_⟩
  rw [← Except.ok.inj h]
  simpa using map_ite_split (f := updates.set) hs hpre hpost

/-- The step with an id, read after it was written. -/
def readRunbookRunStep (r : RunbookRun) (stepId : Bytes) : Except StoreError RunbookRunStepRecord :=
  match r.steps.find? fun s => s.id = stepId with
  | none => .error .notFound
  | some s => .ok s

/-- The first step, in position order, that has not succeeded. -/
def firstUnfinishedRunbookRunStep (steps : List RunbookRunStepRecord) :
    Option RunbookRunStepRecord :=
  steps.find? fun s => s.state ≠ .succeeded

/-! ### The calls -/

/-- The frozen steps of a new run, in order. -/
def newRunbookRunSteps (steps : List FrozenStep) (newStepIds : List Bytes) :
    List RunbookRunStepRecord :=
  (steps.zip newStepIds).mapIdx fun position p =>
    { toFrozenStep := p.1, id := p.2, position, state := .pending, startedAt := none
      finishedAt := none, error := [], confirmedBy := [] }

/-- `CreateRunbookRunWithState`, with the ids of the new rows and the title found for the runbook. -/
def createRunbookRunWithState (db : Db) (title : Option Bytes) (newId : Bytes)
    (newStepIds : List Bytes) (runbookId startedBy : Bytes) (steps : List FrozenStep)
    (initialState : RunState) (requiresApproval : Bool) (now : ℕ) :
    Except StoreError (RunbookRun × Db) :=
  if steps.length = 0 ∨ 20 < steps.length then .error .stepCount
  else if initialState ≠ .running ∧ initialState ≠ .awaitingApproval then .error .unsupported
  else if initialState = .awaitingApproval ∧ ¬ requiresApproval then .error .unsupported
  else
    match title with
    | none => .error .notFound
    | some title =>
        match db.runs.find? (fun r => r.runbookId = runbookId ∧ isOpenRunbookRunState r.state) with
        | some active => .error (.activeRun active.id)
        | none =>
            -- the primary keys of the two tables
            if (db.run? newId).isSome ∨ newStepIds.length ≠ steps.length ∨ ¬ newStepIds.Nodup ∨
                (db.runs.any fun r => r.steps.any fun s => newStepIds.contains s.id) then
              .error .constraint
            else
              let r : RunbookRun :=
                { id := newId, runbookId, runbookTitle := title, state := initialState
                  reason := .empty, startedBy, resumedBy := [], cancelledBy := []
                  requiresApproval, approvedBy := [], approvedAt := none, rejectedBy := []
                  startedAt := now, updatedAt := now, finishedAt := none
                  steps := newRunbookRunSteps steps newStepIds }
              .ok (r, ⟨db.runs ++ [r]⟩)

/-- `ApproveRunbookRun`. -/
def approveRunbookRun (db : Db) (id userId : Bytes) (now : ℕ) :
    Except StoreError (RunbookRun × Db) :=
  withinTransaction db id fun current =>
    if current.state ≠ .awaitingApproval then .error .conflict
    else
      let now := nextRunbookRunTimestamp current.updatedAt now
      let r := { current with
        state := .running, approvedBy := userId, approvedAt := some now, updatedAt := now }
      .ok (r, r)

/-- Steps that are still pending are skipped. -/
def skipAwaitingApprovalRunbookRunSteps (now : ℕ) (s : RunbookRunStepRecord) :
    RunbookRunStepRecord :=
  if s.state = .pending then { s with state := .skipped, finishedAt := some now } else s

/-- A running step becomes unknown, a pending or waiting one skipped. -/
def closeUnfinishedRunbookRunSteps (now : ℕ) (s : RunbookRunStepRecord) : RunbookRunStepRecord :=
  match s.state with
  | .running => { s with state := .unknown, finishedAt := some now }
  | .pending | .waiting => { s with state := .skipped, finishedAt := some now }
  | _ => s

/-- `RejectRunbookRun`. -/
def rejectRunbookRun (db : Db) (id userId : Bytes) (now : ℕ) : Except StoreError (RunbookRun × Db) :=
  withinTransaction db id fun current =>
    if current.state ≠ .awaitingApproval then .error .conflict
    else
      let now := nextRunbookRunTimestamp current.updatedAt now
      let r := { current with
        state := .rejected, rejectedBy := userId, updatedAt := now, finishedAt := some now
        steps := current.steps.map (skipAwaitingApprovalRunbookRunSteps now) }
      .ok (r, r)

/-- `UpdateRunbookRun`: it cannot touch an approval request or end a run other than as succeeded. -/
def updateRunbookRun (db : Db) (id : Bytes) (expectedState : RunState) (updates : RunUpdates)
    (now : ℕ) : Except StoreError (RunbookRunRecord × Db) :=
  if updates = {} then .error .noFields
  else if expectedState = .awaitingApproval then .error .conflict
  else if updates.state = some .awaitingApproval ∨ updates.state = some .rejected ∨
      updates.state = some .cancelled ∨ updates.state = some .expired then .error .unsupported
  else
    withinTransaction db id fun current =>
      if current.state ≠ expectedState then .error .conflict
      else if isOpenRunbookRunState current.state = false then .error .conflict
      else do
        let now := nextRunbookRunTimestamp current.updatedAt now
        let r ← updateRunbookRunRow current expectedState (normalizedRunbookRunUpdates updates now)
          now
        return (r, r.toRunbookRunRecord)

/-- `UpdateRunbookRunStep`: the run must be running; its row is touched too. -/
def updateRunbookRunStep (db : Db) (runId stepId : Bytes) (expectedState : StepState)
    (updates : StepUpdates) (now : ℕ) : Except StoreError (RunbookRunStepRecord × Db) :=
  if updates = {} then .error .noFields
  else
    withinTransaction db runId fun parent =>
      if parent.state ≠ .running then .error .conflict
      else do
        let now := nextRunbookRunTimestamp parent.updatedAt now
        let steps ← updateRunbookRunStepRow parent.steps stepId expectedState
          (normalizedRunbookRunStepUpdates updates expectedState now)
        let r := { parent with updatedAt := now, steps }
        let updated ← readRunbookRunStep r stepId
        return (r, updated)

/-- A step that a user has confirmed. -/
def confirmedRunbookRunStep (confirmedBy : Bytes) (now : ℕ) (s : RunbookRunStepRecord) :
    RunbookRunStepRecord :=
  { s with state := .succeeded, confirmedBy, finishedAt := some now }

/-- `ConfirmRunbookRunStep`: the waiting manual step succeeds and the run goes on. -/
def confirmRunbookRunStep (db : Db) (runId stepId confirmedBy : Bytes) (now : ℕ) :
    Except StoreError (Unit × Db) :=
  withinTransaction db runId fun parent =>
    if parent.state ≠ .waitingManual then .error .conflict
    else if parent.steps.countP
        (fun s => s.id = stepId ∧ s.state = .waiting ∧ s.kind = .manual) ≠ 1 then
      .error .conflict
    else
      let now := nextRunbookRunTimestamp parent.updatedAt now
      .ok ({ parent with
        state := .running, reason := .empty, updatedAt := now, finishedAt := none
        steps := parent.steps.map fun s =>
          if s.id = stepId ∧ s.state = .waiting ∧ s.kind = .manual then
            confirmedRunbookRunStep confirmedBy now s
          else s }, ())

/-- `transitionRunbookRunWithStep`: one step update and one run update together.  A run may only
succeed once every step has. -/
def transitionRunbookRunWithStep (db : Db) (runId stepId : Bytes) (expectedStepState : StepState)
    (runUpdates : RunUpdates) (stepUpdates : StepUpdates) (now : ℕ) :
    Except StoreError ((RunbookRunRecord × RunbookRunStepRecord) × Db) :=
  withinTransaction db runId fun parent =>
    if parent.state ≠ .running then .error .conflict
    else do
      let now := nextRunbookRunTimestamp parent.updatedAt now
      let steps ← updateRunbookRunStepRow parent.steps stepId expectedStepState
        (normalizedRunbookRunStepUpdates stepUpdates expectedStepState now)
      if runUpdates.state = some .succeeded ∧ steps.countP (fun s => s.state ≠ .succeeded) ≠ 0 then
        .error .conflict
      else do
        let r ← updateRunbookRunRow { parent with steps } .running
          (normalizedRunbookRunUpdates runUpdates now) now
        let step ← readRunbookRunStep r stepId
        return (r, (r.toRunbookRunRecord, step))

/-- `PauseRunbookRunOnManualStep`. -/
def pauseRunbookRunOnManualStep (db : Db) (runId stepId : Bytes) (now : ℕ) :
    Except StoreError ((RunbookRunRecord × RunbookRunStepRecord) × Db) :=
  transitionRunbookRunWithStep db runId stepId .pending { state := some .waitingManual }
    { state := some .waiting } now

/-- `FailRunbookRunStep`. -/
def failRunbookRunStep (db : Db) (runId stepId : Bytes) (stepState : StepState) (stepError : Bytes)
    (reason : Reason) (now : ℕ) :
    Except StoreError ((RunbookRunRecord × RunbookRunStepRecord) × Db) :=
  if stepState ≠ .failed ∧ stepState ≠ .unknown then .error .unsupported
  else
    transitionRunbookRunWithStep db runId stepId .running
      { state := some .failed, reason := some reason }
      { state := some stepState, error := some stepError } now

/-- `FinishRunbookRun`. -/
def finishRunbookRun (db : Db) (runId stepId : Bytes) (now : ℕ) :
    Except StoreError ((RunbookRunRecord × RunbookRunStepRecord) × Db) :=
  transitionRunbookRunWithStep db runId stepId .running { state := some .succeeded }
    { state := some .succeeded } now

/-- `CancelRunbookRun`. -/
def cancelRunbookRun (db : Db) (id cancelledBy : Bytes) (now : ℕ) : Except StoreError (Unit × Db) :=
  withinTransaction db id fun run =>
    if isOpenRunbookRunState run.state = false then .error .conflict
    else
      let now := nextRunbookRunTimestamp run.updatedAt now
      .ok ({ run with
        state := .cancelled, cancelledBy, updatedAt := now, finishedAt := some now
        steps := run.steps.map (closeUnfinishedRunbookRunSteps now) }, ())

/-- The steps of a run that is resumed: the expected step, when one is given, must be the first
that has not succeeded, and with `markDone` it must be unknown, and succeeds. -/
def resumedRunbookRunSteps (steps : List RunbookRunStepRecord) (expectedStepId : Bytes)
    (markDone : Bool) (now : ℕ) : Except StoreError (List RunbookRunStepRecord) :=
  if expectedStepId = [] then .ok steps
  else
    match firstUnfinishedRunbookRunStep steps with
    | none => .error .conflict
    | some first =>
        if first.id ≠ expectedStepId then .error .conflict
        else if markDone = false then .ok steps
        else if first.state ≠ .unknown then .error .conflict
        else
          updateRunbookRunStepRow steps expectedStepId .unknown
            (normalizedRunbookRunStepUpdates { state := some .succeeded, error := some [] }
              .unknown now)

/-- `resumeRunbookRun`: a failed run at the expected revision goes on. -/
def resumeRunbookRun (db : Db) (runId : Bytes) (expectedUpdatedAt : ℕ) (expectedStepId : Bytes)
    (markDone : Bool) (userId : Bytes) (now : ℕ) : Except StoreError (RunbookRun × Db) :=
  withinTransaction db runId fun parent =>
    if parent.state ≠ .failed ∨ parent.updatedAt ≠ expectedUpdatedAt then .error .conflict
    else do
      let now := nextRunbookRunTimestamp parent.updatedAt now
      let steps ← resumedRunbookRunSteps parent.steps expectedStepId markDone now
      let r ← updateRunbookRunRow { parent with steps } .failed
        (normalizedRunbookRunUpdates { state := some .running, resumedBy := some userId } now) now
      return (r, r)

/-- `ResumeRunbookRunMarkingStepDone`. -/
def resumeRunbookRunMarkingStepDone (db : Db) (runId : Bytes) (expectedUpdatedAt : ℕ)
    (stepId userId : Bytes) (now : ℕ) : Except StoreError (RunbookRun × Db) :=
  if stepId = [] then .error .conflict
  else resumeRunbookRun db runId expectedUpdatedAt stepId true userId now

/-! ### The calls on every run in some state -/

/-- The steps of an interrupted run: a running step becomes unknown, a waiting one pending. -/
def interruptRunbookRunStep (now : ℕ) (s : RunbookRunStepRecord) : RunbookRunStepRecord :=
  match s.state with
  | .running => { s with state := .unknown, finishedAt := some now }
  | .waiting => { s with state := .pending, startedAt := none }
  | _ => s

/-- A run that startup found running fails as interrupted; `clock` is read for each run. -/
def interruptRunbookRun (clock : Bytes → ℕ) (run : RunbookRun) : RunbookRun :=
  if run.state = .running then
    let now := nextRunbookRunTimestamp run.updatedAt (clock run.id)
    { run with
      state := .failed, reason := .interrupted, updatedAt := now
      steps := run.steps.map (interruptRunbookRunStep now) }
  else run

/-- `InterruptRunningRunbookRuns`. -/
def interruptRunningRunbookRuns (db : Db) (clock : Bytes → ℕ) : Db :=
  ⟨db.runs.map (interruptRunbookRun clock)⟩

/-- A manual wait or failed run older than the cutoff expires. -/
def expireOpenRunbookRun (cutoff : ℕ) (clock : Bytes → ℕ) (run : RunbookRun) : RunbookRun :=
  if (run.state = .waitingManual ∨ run.state = .failed) ∧ run.updatedAt < cutoff then
    let now := nextRunbookRunTimestamp run.updatedAt (clock run.id)
    { run with
      state := .expired, updatedAt := now, finishedAt := some now
      steps := run.steps.map (closeUnfinishedRunbookRunSteps now) }
  else run

/-- `ExpireOpenRunbookRuns`; without a cutoff it does nothing. -/
def expireOpenRunbookRuns (db : Db) (before : Option ℕ) (clock : Bytes → ℕ) : Db :=
  match before with
  | none => db
  | some cutoff => ⟨db.runs.map (expireOpenRunbookRun cutoff clock)⟩

/-- An approval request older than the cutoff expires. -/
def expireAwaitingApprovalRunbookRun (cutoff : ℕ) (clock : Bytes → ℕ) (run : RunbookRun) :
    RunbookRun :=
  if run.state = .awaitingApproval ∧ run.updatedAt < cutoff then
    let now := nextRunbookRunTimestamp run.updatedAt (clock run.id)
    { run with
      state := .expired, reason := .approvalExpired, updatedAt := now, finishedAt := some now
      steps := run.steps.map (skipAwaitingApprovalRunbookRunSteps now) }
  else run

/-- `ExpireAwaitingApprovalRunbookRuns`. -/
def expireAwaitingApprovalRunbookRuns (db : Db) (before : Option ℕ) (clock : Bytes → ℕ) : Db :=
  match before with
  | none => db
  | some cutoff => ⟨db.runs.map (expireAwaitingApprovalRunbookRun cutoff clock)⟩

/-- `PruneRunbookRuns`: finished runs older than the cutoff are deleted. -/
def pruneRunbookRuns (db : Db) (before : Option ℕ) : Db :=
  match before with
  | none => db
  | some cutoff =>
      ⟨db.runs.filter fun run =>
        ¬ (isTerminalRunbookRunState run.state ∧ run.finishedAt.any (· < cutoff))⟩

end WiseLabz.Runbook
