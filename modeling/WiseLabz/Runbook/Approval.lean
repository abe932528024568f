/-
**Approval of runs.**

A runbook may ask for a second operator: a run of it is then created as a request, which another
operator approves or rejects.  The start of a run lists the steps of the runbook, reads whether it
asks for approval, looks for somebody who could approve, and creates the run, each in a call of its
own, while an edit replaces the steps and the flag at once.  The approver's rights are read call by
call too.  In the store a request is a run that only four calls can touch.

Main definitions:

* `Runbook.RunbookVersion`, `Runbook.freezeSteps` — what an edit commits, and the steps of a run;
* `Runbook.ApprovalRequest`, `Runbook.ApprovalSys.next` — **one call of a request**;
* `Runbook.Bounded`, `Runbook.BoundedStep` — what is claimed of a state and of a step;
* `Runbook.readsOneVersion` — the condition on a step.
-/

import WiseLabz.Runbook.Keeps

set_option relaxedAutoImplicit false
set_option autoImplicit false

namespace WiseLabz.Runbook

open Lib

/-! ### Runbooks -/

/-- An authored step; the kind of an old row may be empty. -/
structure RunbookStep where
  kind : Option StepKind
  title : Bytes
  connectorId : Bytes
  verb : Bytes
  entityRef : Bytes
  fieldKey : Bytes
  targetValue : Bytes
  attributeName : Bytes
  operator : Bytes
  expectedValue : Bytes
  action : Bytes
  timeoutSeconds : ℤ
  deriving DecidableEq, Repr

def hasTimeout : StepKind → Bool
  | .syncAndWait | .waitUntilHealthy | .waitForEntity => true
  | _ => false

/-- `DefaultStepTimeout`, in seconds. -/
def defaultStepTimeout : ℤ := 5 * 60

/-- A step as `FreezeSteps` copies it. -/
def freezeStep (step : RunbookStep) : FrozenStep :=
  let kind := step.kind.getD .lifecycle
  { kind
    title := step.title
    connectorId := step.connectorId
    verb := step.verb
    entityRef := step.entityRef
    fieldKey := step.fieldKey
    targetValue := step.targetValue
    attributeName := step.attributeName
    operator := step.operator
    expectedValue := step.expectedValue
    action := if kind = .connectorAction then step.action else []
    actionFingerprint := []
    timeoutSeconds :=
      if hasTimeout kind then
        if step.timeoutSeconds ≤ 0 then defaultStepTimeout else step.timeoutSeconds
      else 0 }

/-- `FreezeSteps`. -/
def freezeSteps (steps : List RunbookStep) : List FrozenStep := steps.map freezeStep

/-- `freezeActionFingerprints`: the fingerprint of each action, as the recipes declare it now. -/
def freezeActionFingerprints (fingerprint : FrozenStep → Bytes) (steps : List FrozenStep) :
    List FrozenStep :=
  steps.map fun step =>
    if step.kind = .connectorAction then { step with actionFingerprint := fingerprint step } else step

/-- The step without the fingerprint of its action, which is not authored. -/
def FrozenStep.authored (step : FrozenStep) : FrozenStep := { step with actionFingerprint := [] }

/-- What an edit commits of a runbook. -/
structure RunbookVersion where
  steps : List RunbookStep
  requiresApproval : Bool
  deriving DecidableEq, Repr

/-- The rights that are checked one by one: operator on each distinct connector, and without a
connector (`none`) the right of `connectorlessRunAuthorized`. -/
def requiredRoles (steps : List FrozenStep) : List (Option Bytes) :=
  let ids := ((steps.map (·.connectorId)).filter (· ≠ [])).dedup
  if ids = [] then [none] else ids.map some

/-! ### Requests -/

inductive Decision
  | approve
  | reject
  deriving DecidableEq, Repr

/-- What `canApproveRun` has seen of its user: whether enabled, and the rights held. -/
structure Evidence where
  enabled : Bool
  held : List (Option Bytes)
  deriving DecidableEq, Repr

/-- Where a request is. -/
inductive ApprovalRequest
  /-- `StartRun` has listed the steps, of the version, and checks the rights of its user. -/
  | authorizingStart (userId : Bytes) (readOnly : Bool) (version : RunbookVersion)
      (todo : List (Option Bytes))
  /-- It reads the runbook next. -/
  | readingRunbook (userId : Bytes) (version : RunbookVersion)
  /-- The runbook asks for approval: it looks for somebody who could approve. -/
  | findingApprovers (userId : Bytes) (version : RunbookVersion)
  /-- `Executor.Start`. -/
  | starting (userId : Bytes) (version : RunbookVersion)
  /-- `Executor.Request`, which looks again. -/
  | requesting (userId : Bytes) (version : RunbookVersion)
  | creating (userId : Bytes) (version : RunbookVersion)
  /-- `approvalRun` has read the run; `runAuthorized`. -/
  | authorizing (decision : Decision) (userId : Bytes) (readOnly : Bool) (run : RunbookRun)
      (todo : List (Option Bytes))
  /-- `canApproveRun`: the user, and then the rights. -/
  | findingUser (decision : Decision) (userId : Bytes) (run : RunbookRun)
  | checkingRoles (decision : Decision) (userId : Bytes) (run : RunbookRun) (seen : Evidence)
      (todo : List (Option Bytes))
  /-- `Executor.Approve` or `Executor.Reject`. -/
  | deciding (decision : Decision) (userId : Bytes) (run : RunbookRun) (seen : Evidence)
  | returned
  deriving DecidableEq, Repr

/-- An approval that the store has accepted: of which run, by whom, what its request had seen of the
user, and the steps that it had read. -/
structure Approval where
  runId : Bytes
  userId : Bytes
  seen : Evidence
  shown : List FrozenStep
  deriving DecidableEq, Repr

/-- The state of the system.  `committed`, `origins` and `approvals` are not stored anywhere: they
record the versions of the runbook, the version whose steps each run was made of, and the
approvals. -/
structure ApprovalSys where
  current : RunbookVersion
  db : Db
  /-- Users and the connectors they are operators on. -/
  operators : List (Bytes × Bytes)
  instanceAdmins : List Bytes
  enabledUsers : List Bytes
  requests : List ApprovalRequest
  committed : List RunbookVersion
  origins : List (Bytes × RunbookVersion)
  approvals : List Approval
  deriving DecidableEq, Repr

def ApprovalSys.holds (s : ApprovalSys) (userId : Bytes) : Option Bytes → Bool
  | some connectorId => s.operators.contains (userId, connectorId)
  | none => s.instanceAdmins.contains userId || s.operators.any fun g => g.1 = userId

/-- What a call depends on besides the state: whether it goes through, whether there is somebody who
could approve, whether the elevation is valid, and what is new in a run. -/
structure ApprovalChance where
  io : Bool
  eligible : Bool
  elevated : Bool
  title : Option Bytes
  newId : Bytes
  newStepIds : List Bytes
  fingerprint : FrozenStep → Bytes
  now : ℕ

/-- What happens. -/
inductive ApprovalEvent
  /-- `UpdateRunbookWithSteps`; what is not given stays. -/
  | edit (steps : Option (List RunbookStep)) (requiresApproval : Option Bool)
  | grant (operators : List (Bytes × Bytes)) (instanceAdmins enabledUsers : List Bytes)
  /-- `StartRun` lists the steps. -/
  | submitStart (userId : Bytes) (readOnly : Bool)
  /-- `ApproveRun` or `RejectRun` reads the run. -/
  | submitDecision (decision : Decision) (userId : Bytes) (readOnly : Bool) (runId : Bytes)
  | advance (i : ℕ) (c : ApprovalChance)
  /-- Any other call: of the executor, a resume, a cancellation, an expiry, recovery. -/
  | call (call : StoreCall) (clock : Bytes → ℕ)
  | crash

def ApprovalSys.goTo (s : ApprovalSys) (i : ℕ) (q : ApprovalRequest) : ApprovalSys :=
  { s with requests := s.requests.set i q }

/-- The run is created; its id is new. -/
def ApprovalSys.create (runbookId : Bytes) (s : ApprovalSys) (i : ℕ) (userId : Bytes)
    (version : RunbookVersion) (initialState : RunState) (requiresApproval : Bool)
    (c : ApprovalChance) : Option ApprovalSys :=
  if userId = [] then some (s.goTo i .returned)
  else if c.newId ∈ s.origins.map Prod.fst then none
  else
    match createRunbookRunWithState s.db c.title c.newId c.newStepIds runbookId userId
        (freezeActionFingerprints c.fingerprint (freezeSteps version.steps)) initialState
        requiresApproval c.now with
    | .error _ => some (s.goTo i .returned)
    | .ok (_, db') => some { s.goTo i .returned with
        db := db'
        origins := s.origins ++ [(c.newId, version)] }

/-- **One call of a request.** -/
def ApprovalSys.advance (runbookId : Bytes) (s : ApprovalSys) (i : ℕ) (c : ApprovalChance) :
    Option ApprovalSys :=
  match s.requests[i]? with
  | none => none
  | some .returned => none
  | some q =>
      if !c.io then some (s.goTo i .returned)
      else
        match q with
        | .authorizingStart userId readOnly version [] =>
            some (s.goTo i (if readOnly then .returned else .readingRunbook userId version))
        | .authorizingStart userId readOnly version (role :: todo) =>
            some (s.goTo i (if s.holds userId role then
              .authorizingStart userId readOnly version todo else .returned))
        | .readingRunbook userId version =>
            some (s.goTo i (
              if version.steps = [] then .returned
              else if s.current.requiresApproval then .findingApprovers userId version
              else if c.elevated then .starting userId version
              else .returned))
        | .findingApprovers userId version =>
            some (s.goTo i (if c.eligible && c.elevated then .requesting userId version
              else .returned))
        | .starting userId version => s.create runbookId i userId version .running false c
        | .requesting userId version =>
            some (s.goTo i (if c.eligible then .creating userId version else .returned))
        | .creating userId version => s.create runbookId i userId version .awaitingApproval true c
        | .authorizing decision userId readOnly run [] =>
            some (s.goTo i (if readOnly then .returned else .findingUser decision userId run))
        | .authorizing decision userId readOnly run (role :: todo) =>
            some (s.goTo i (if s.holds userId role then
              .authorizing decision userId readOnly run todo else .returned))
        | .findingUser decision userId run =>
            some (s.goTo i (
              if userId = [] ∨ userId = run.startedBy ∨ !s.enabledUsers.contains userId then
                .returned
              else .checkingRoles decision userId run ⟨s.enabledUsers.contains userId, []⟩
                (requiredRoles (run.steps.map (·.toFrozenStep)))))
        | .checkingRoles decision userId run seen [] =>
            some (s.goTo i (
              if run.state ≠ .awaitingApproval ∨ (decision = .approve ∧ !c.elevated) then .returned
              else .deciding decision userId run seen))
        | .checkingRoles decision userId run seen (role :: todo) =>
            some (s.goTo i (if s.holds userId role then
              .checkingRoles decision userId run { seen with held := seen.held ++ [role] } todo
              else .returned))
        | .deciding .approve userId run seen =>
            match (StoreCall.approve run.id userId).run s.db (fun _ => c.now) with
            | .error _ => some (s.goTo i .returned)
            | .ok db' => some { s.goTo i .returned with
                db := db'
                approvals := s.approvals ++
                  [⟨run.id, userId, seen, run.steps.map (·.toFrozenStep)⟩] }
        | .deciding .reject userId run _ =>
            match (StoreCall.reject run.id userId).run s.db (fun _ => c.now) with
            | .error _ => some (s.goTo i .returned)
            | .ok db' => some { s.goTo i .returned with db := db' }
        | .returned => none

/-- **What happens next.** -/
def ApprovalSys.next (runbookId : Bytes) (s : ApprovalSys) : ApprovalEvent → Option ApprovalSys
  | .edit steps requiresApproval =>
      let version : RunbookVersion :=
        ⟨steps.getD s.current.steps, requiresApproval.getD s.current.requiresApproval⟩
      some { s with current := version, committed := s.committed ++ [version] }
  | .grant operators instanceAdmins enabledUsers => some { s with
      operators := operators, instanceAdmins := instanceAdmins, enabledUsers := enabledUsers }
  | .submitStart userId readOnly => some { s with
      requests := s.requests ++ [.authorizingStart userId readOnly s.current
        (requiredRoles (freezeSteps s.current.steps))] }
  | .submitDecision decision userId readOnly runId =>
      match s.db.run? runId with
      | none => none
      | some run => some { s with
          requests := s.requests ++ [.authorizing decision userId readOnly run
            (requiredRoles (run.steps.map (·.toFrozenStep)))] }
  | .advance i c => s.advance runbookId i c
  | .call call clock =>
      if call.isOther then
        match call.run s.db clock with
        | .error _ => none
        | .ok db' => some { s with db := db' }
      else none
  | .crash => some { s with requests := [] }

/-- A runbook without runs, before the first request. -/
def approvals (runbookId : Bytes) : Machine ApprovalSys ApprovalEvent where
  init s := s.db = ⟨[]⟩ ∧ s.requests = [] ∧ s.committed = [s.current] ∧ s.origins = [] ∧
    s.approvals = []
  step s ev t := s.next runbookId ev = some t

/-! ### What is claimed -/

/-- The run was approved, by an enabled user other than its starter who held each right that its steps
require. -/
def ApprovedBy (r : RunbookRun) (a : Approval) : Prop :=
  a.runId = r.id ∧ a.userId ≠ r.startedBy ∧ a.seen.enabled = true ∧
    ∀ role ∈ requiredRoles (r.steps.map (·.toFrozenStep)), role ∈ a.seen.held

/-- **What is claimed of a state.** -/
structure Bounded (s : ApprovalSys) : Prop where
  /-- The steps of a run and its flag are those of one committed version. -/
  oneVersion : ∀ r ∈ s.db.runs, ∃ v ∈ s.committed, (r.id, v) ∈ s.origins ∧
    r.steps.map (·.toFrozenStep.authored) = freezeSteps v.steps ∧
      r.requiresApproval = v.requiresApproval
  /-- No step leaves pending, other than to skipped, without approval. -/
  approved : ∀ r ∈ s.db.runs, ∀ v, (r.id, v) ∈ s.origins → v.requiresApproval = true →
    (∀ step ∈ r.steps, step.state = .pending ∨ step.state = .skipped) ∨
      ∃ a ∈ s.approvals, ApprovedBy r a
  /-- The steps are those that the approver was shown. -/
  shown : ∀ r ∈ s.db.runs, ∀ a ∈ s.approvals, a.runId = r.id →
    r.steps.map (·.toFrozenStep) = a.shown

/-- The run is a request that was refused, withdrawn or not answered in time. -/
def Refused (s : ApprovalSys) (r : RunbookRun) : Prop :=
  r.requiresApproval = true ∧ (∀ a ∈ s.approvals, a.runId ≠ r.id) ∧
    (r.state = .rejected ∨ r.state = .expired ∨ r.state = .cancelled)

/-- **What is claimed of a step**: of the state it leads to, and that a refused request stays one, and
none of its steps is executed. -/
structure BoundedStep (s : ApprovalSys) (_ev : ApprovalEvent) (t : ApprovalSys) : Prop where
  bounded : Bounded t
  refused : ∀ r ∈ s.db.runs, Refused s r → ∀ r' ∈ t.db.runs, r'.id = r.id →
    Refused t r' ∧ Untouched r'

/-- **The condition on a step**: where a start reads whether the runbook asks for approval, no edit has
changed this since it has listed the steps. -/
def readsOneVersion (s : ApprovalSys) : ApprovalEvent → Bool
  | .advance i c =>
      match s.requests[i]? with
      | some (.readingRunbook _ version) =>
          !c.io || version.requiresApproval = s.current.requiresApproval
      | _ => true
  | _ => true

end WiseLabz.Runbook
