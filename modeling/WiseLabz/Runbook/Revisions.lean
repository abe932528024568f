/-
**Revisions of runs.**

The revision of a run is the text of an instant.  Every call reads it, parses it, and writes the
text of a later instant, so while the clock and the revisions stay before the year 10000 the texts
of a run increase, whatever the clock does, and a revision that a caller has read stands for the run
as it was read.  A text of a later year is none that the parser takes.

Main definitions:

* `Runbook.runbookRunTimestamp`, `Runbook.nextRunbookRunTimestampText`,
  `Runbook.normalizeRunbookRunCutoff` — the texts that are stored and compared;
* `Runbook.resumeRunbookRunRead` — a resume, with the revision as the caller read it;
* `Runbook.StoreCall`, `Runbook.storeInYears`, `Runbook.storeKeeping` — the calls of the store, in
  any order, until the year 10000 and while a run is kept.

Main results:

* `Runbook.nextRunbookRunTimestampText_eq` — the revisions as texts and as instants;
* `Runbook.StoreCall.later` — what a call does to each run;
* `Runbook.revisions_never_repeat` — **revisions never repeat**.
-/

import WiseLabz.Lib.Calendar
import WiseLabz.Lib.Machine
import WiseLabz.Runbook.Store

set_option relaxedAutoImplicit false
set_option autoImplicit false

namespace WiseLabz.Runbook

open Lib

/-! ### Texts -/

/-- The stored text of an instant. -/
def runbookRunTimestamp (t : ℕ) : Bytes := timestamp t

/-- `nextRunbookRunTimestamp` on the stored texts. -/
def nextRunbookRunTimestampText (previous : Bytes) (now : ℕ) : Bytes :=
  if previous = [] then runbookRunTimestamp now
  else
    match parseTime previous with
    | none => runbookRunTimestamp now
    | some last => runbookRunTimestamp (if now ≤ last then last + 1 else now)

/-- `normalizeRunbookRunCutoff`: a cutoff that is no instant is refused. -/
def normalizeRunbookRunCutoff (cutoff : Bytes) : Option Bytes :=
  (parseTime cutoff).map runbookRunTimestamp

/-- The texts that are stored compare as the instants do. -/
theorem runbookRunTimestamp_lt_iff {t u : ℕ} (ht : t < endOfYears) (hu : u < endOfYears) :
    runbookRunTimestamp t < runbookRunTimestamp u ↔ t < u :=
  ordered_timestamp.lt_iff ht hu

theorem runbookRunTimestamp_eq_iff {t u : ℕ} (ht : t < endOfYears) (hu : u < endOfYears) :
    runbookRunTimestamp t = runbookRunTimestamp u ↔ t = u :=
  ordered_timestamp.eq_iff ht hu

/-- **The revisions as texts and as instants**, until the year 10000. -/
theorem nextRunbookRunTimestampText_eq {t : ℕ} (h : t < endOfYears) (now : ℕ) :
    nextRunbookRunTimestampText (runbookRunTimestamp t) now =
      runbookRunTimestamp (nextRunbookRunTimestamp t now) := by
  have hne : runbookRunTimestamp t ≠ [] := by
    intro hnil
    have hlength := ordered_timestamp.length t h
    rw [show timestamp t = [] from hnil] at hlength
    cases hlength
  rw [nextRunbookRunTimestampText, if_neg hne, runbookRunTimestamp, parseTime_timestamp h]
  rfl

/-- `ResumeRunbookRun` and `ResumeRunbookRunMarkingStepDone`, with the revision as the text that the
caller read. -/
def resumeRunbookRunRead (db : Db) (runId expectedUpdatedAt expectedStepId : Bytes)
    (markDone : Bool) (userId : Bytes) (now : ℕ) : Except StoreError (RunbookRun × Db) :=
  if markDone ∧ expectedStepId = [] then .error .conflict
  else do
    let parent ← lockRunbookRun db runId
    if runbookRunTimestamp parent.updatedAt ≠ expectedUpdatedAt then .error .conflict
    else resumeRunbookRun db runId parent.updatedAt expectedStepId markDone userId now

/-! ### The calls of the store -/

/-- A call of the store, with its arguments. -/
inductive StoreCall
  | create (title : Option Bytes) (newId : Bytes) (newStepIds : List Bytes)
      (runbookId startedBy : Bytes) (steps : List FrozenStep) (initialState : RunState)
      (requiresApproval : Bool)
  | approve (id userId : Bytes)
  | reject (id userId : Bytes)
  | update (id : Bytes) (expectedState : RunState) (updates : RunUpdates)
  | updateStep (runId stepId : Bytes) (expectedState : StepState) (updates : StepUpdates)
  | confirm (runId stepId confirmedBy : Bytes)
  | pause (runId stepId : Bytes)
  | fail (runId stepId : Bytes) (stepState : StepState) (stepError : Bytes) (reason : Reason)
  | finish (runId stepId : Bytes)
  | cancel (id cancelledBy : Bytes)
  | resume (runId : Bytes) (expectedUpdatedAt : ℕ) (expectedStepId userId : Bytes)
  | resumeMarkingStepDone (runId : Bytes) (expectedUpdatedAt : ℕ) (stepId userId : Bytes)
  | interrupt
  | expireOpen (before : Option ℕ)
  | expireAwaitingApproval (before : Option ℕ)
  | prune (before : Option ℕ)

/-- The run that a call is about. -/
def StoreCall.runId? : StoreCall → Option Bytes
  | .approve id _ | .reject id _ | .update id _ _ | .updateStep id _ _ _ | .confirm id _ _
  | .pause id _ | .fail id _ _ _ _ | .finish id _ | .cancel id _ | .resume id _ _ _
  | .resumeMarkingStepDone id _ _ _ => some id
  | _ => none

/-- **A call**, with what the clock shows in it: a call on many runs reads it for each of them. -/
def StoreCall.run (db : Db) (clock : Bytes → ℕ) : StoreCall → Except StoreError Db
  | .create title newId newStepIds runbookId startedBy steps initialState requiresApproval =>
      (createRunbookRunWithState db title newId newStepIds runbookId startedBy steps initialState
        requiresApproval (clock newId)).map (·.2)
  | .approve id userId => (approveRunbookRun db id userId (clock id)).map (·.2)
  | .reject id userId => (rejectRunbookRun db id userId (clock id)).map (·.2)
  | .update id expectedState updates =>
      (updateRunbookRun db id expectedState updates (clock id)).map (·.2)
  | .updateStep runId stepId expectedState updates =>
      (updateRunbookRunStep db runId stepId expectedState updates (clock runId)).map (·.2)
  | .confirm runId stepId confirmedBy =>
      (confirmRunbookRunStep db runId stepId confirmedBy (clock runId)).map (·.2)
  | .pause runId stepId => (pauseRunbookRunOnManualStep db runId stepId (clock runId)).map (·.2)
  | .fail runId stepId stepState stepError reason =>
      (failRunbookRunStep db runId stepId stepState stepError reason (clock runId)).map (·.2)
  | .finish runId stepId => (finishRunbookRun db runId stepId (clock runId)).map (·.2)
  | .cancel id cancelledBy => (cancelRunbookRun db id cancelledBy (clock id)).map (·.2)
  | .resume runId expectedUpdatedAt expectedStepId userId =>
      (resumeRunbookRun db runId expectedUpdatedAt expectedStepId false userId
        (clock runId)).map (·.2)
  | .resumeMarkingStepDone runId expectedUpdatedAt stepId userId =>
      (resumeRunbookRunMarkingStepDone db runId expectedUpdatedAt stepId userId
        (clock runId)).map (·.2)
  | .interrupt => .ok (interruptRunningRunbookRuns db clock)
  | .expireOpen before => .ok (expireOpenRunbookRuns db before clock)
  | .expireAwaitingApproval before => .ok (expireAwaitingApprovalRunbookRuns db before clock)
  | .prune before => .ok (pruneRunbookRuns db before)

/-- Calls and clock readings in any order, from empty tables. -/
def store : Machine Db (StoreCall × (Bytes → ℕ)) where
  init db := db.runs = []
  step db call db' := call.1.run db call.2 = .ok db'

/-- Each reading of the clock, and each revision that is left, lies before the year 10000. -/
def InYears (call : StoreCall × (Bytes → ℕ)) (db' : Db) : Prop :=
  (∀ id, call.2 id < endOfYears) ∧ ∀ r ∈ db'.runs, r.updatedAt < endOfYears

/-- The same until the year 10000. -/
def storeInYears : Machine Db (StoreCall × (Bytes → ℕ)) where
  init := store.init
  step db call db' := store.step db call db' ∧ InYears call db'

/-- The same from any tables, as long as the run is kept. -/
def storeKeeping (id : Bytes) : Machine Db (StoreCall × (Bytes → ℕ)) where
  init _ := True
  step db call db' := storeInYears.step db call db' ∧ (db'.run? id).isSome = true

/-! ### A call makes a later revision -/

/-- The tables after a call that has rewritten one run. -/
def Rewrites (db : Db) (id : Bytes) (db' : Db) : Prop :=
  ∃ r r', db.run? id = some r ∧ r'.id = r.id ∧ r.updatedAt < r'.updatedAt ∧ db' = db.put id r'

/-- A transaction that writes a later revision. -/
theorem withinTransaction_rewrites {β : Type} {db db' : Db} {id : Bytes}
    {body : RunbookRun → Except StoreError (RunbookRun × β)} {b : β}
    (hbody : ∀ r r' b, body r = .ok (r', b) → r'.id = r.id ∧ r.updatedAt < r'.updatedAt)
    (h : withinTransaction db id body = .ok (b, db')) : Rewrites db id db' := by
  obtain ⟨r, r', hr, hwritten, rfl⟩ := withinTransaction_eq_ok.1 h
  obtain ⟨hid, hlt⟩ := hbody r r' b hwritten
  exact ⟨r, r', hr, hid, hlt, rfl⟩

section Calls

variable {db db' : Db} {id stepId userId : Bytes} {now : ℕ}

theorem approveRunbookRun_rewrites {r : RunbookRun}
    (h : approveRunbookRun db id userId now = .ok (r, db')) : Rewrites db id db' := by
  refine withinTransaction_rewrites (fun r r' b hwritten => ?_) h
  rw [ite_error_eq_ok] at hwritten
  obtain ⟨rfl, -⟩ := Prod.mk.inj (Except.ok.inj hwritten.2)
  exact ⟨rfl, lt_nextRunbookRunTimestamp _ _⟩

theorem rejectRunbookRun_rewrites {r : RunbookRun}
    (h : rejectRunbookRun db id userId now = .ok (r, db')) : Rewrites db id db' := by
  refine withinTransaction_rewrites (fun r r' b hwritten => ?_) h
  rw [ite_error_eq_ok] at hwritten
  obtain ⟨rfl, -⟩ := Prod.mk.inj (Except.ok.inj hwritten.2)
  exact ⟨rfl, lt_nextRunbookRunTimestamp _ _⟩

theorem cancelRunbookRun_rewrites {u : Unit}
    (h : cancelRunbookRun db id userId now = .ok (u, db')) : Rewrites db id db' := by
  refine withinTransaction_rewrites (fun r r' b hwritten => ?_) h
  rw [ite_error_eq_ok] at hwritten
  obtain ⟨rfl, -⟩ := Prod.mk.inj (Except.ok.inj hwritten.2)
  exact ⟨rfl, lt_nextRunbookRunTimestamp _ _⟩

theorem updateRunbookRun_rewrites {expectedState : RunState} {updates : RunUpdates}
    {row : RunbookRunRecord}
    (h : updateRunbookRun db id expectedState updates now = .ok (row, db')) : Rewrites db id db' := by
  rw [updateRunbookRun, ite_error_eq_ok, ite_error_eq_ok, ite_error_eq_ok] at h
  refine withinTransaction_rewrites (fun r r' b hwritten => ?_) h.2.2.2
  rw [ite_error_eq_ok, ite_error_eq_ok, bind_eq_ok] at hwritten
  obtain ⟨-, -, r₁, hr₁, hwritten⟩ := hwritten
  obtain ⟨-, rfl⟩ := updateRunbookRunRow_eq_ok hr₁
  obtain ⟨rfl, -⟩ := Prod.mk.inj (pure_eq_ok.1 hwritten)
  exact ⟨rfl, lt_nextRunbookRunTimestamp _ _⟩

theorem updateRunbookRunStep_rewrites {expectedState : StepState} {updates : StepUpdates}
    {row : RunbookRunStepRecord}
    (h : updateRunbookRunStep db id stepId expectedState updates now = .ok (row, db')) :
    Rewrites db id db' := by
  rw [updateRunbookRunStep, ite_error_eq_ok] at h
  refine withinTransaction_rewrites (fun r r' b hwritten => ?_) h.2
  rw [ite_error_eq_ok, bind_eq_ok] at hwritten
  obtain ⟨-, steps, -, hwritten⟩ := hwritten
  rw [bind_eq_ok] at hwritten
  obtain ⟨s, -, hwritten⟩ := hwritten
  obtain ⟨rfl, -⟩ := Prod.mk.inj (pure_eq_ok.1 hwritten)
  exact ⟨rfl, lt_nextRunbookRunTimestamp _ _⟩

theorem confirmRunbookRunStep_rewrites {u : Unit}
    (h : confirmRunbookRunStep db id stepId userId now = .ok (u, db')) : Rewrites db id db' := by
  refine withinTransaction_rewrites (fun r r' b hwritten => ?_) h
  rw [ite_error_eq_ok, ite_error_eq_ok] at hwritten
  obtain ⟨rfl, -⟩ := Prod.mk.inj (Except.ok.inj hwritten.2.2)
  exact ⟨rfl, lt_nextRunbookRunTimestamp _ _⟩

theorem transitionRunbookRunWithStep_rewrites {expectedStepState : StepState}
    {runUpdates : RunUpdates} {stepUpdates : StepUpdates}
    {rows : RunbookRunRecord × RunbookRunStepRecord}
    (h : transitionRunbookRunWithStep db id stepId expectedStepState runUpdates stepUpdates now =
      .ok (rows, db')) : Rewrites db id db' := by
  refine withinTransaction_rewrites (fun r r' b hwritten => ?_) h
  rw [ite_error_eq_ok, bind_eq_ok] at hwritten
  obtain ⟨-, steps, -, hwritten⟩ := hwritten
  rw [ite_error_eq_ok, bind_eq_ok] at hwritten
  obtain ⟨-, r₁, hr₁, hwritten⟩ := hwritten
  obtain ⟨-, rfl⟩ := updateRunbookRunRow_eq_ok hr₁
  rw [bind_eq_ok] at hwritten
  obtain ⟨s, -, hwritten⟩ := hwritten
  obtain ⟨rfl, -⟩ := Prod.mk.inj (pure_eq_ok.1 hwritten)
  exact ⟨rfl, lt_nextRunbookRunTimestamp _ _⟩

/-- A resume has found the run at the expected revision. -/
theorem resumeRunbookRun_rewrites {expectedUpdatedAt : ℕ} {markDone : Bool} {r : RunbookRun}
    (h : resumeRunbookRun db id expectedUpdatedAt stepId markDone userId now = .ok (r, db')) :
    Rewrites db id db' := by
  refine withinTransaction_rewrites (fun r r' b hwritten => ?_) h
  rw [ite_error_eq_ok, bind_eq_ok] at hwritten
  obtain ⟨-, steps, -, hwritten⟩ := hwritten
  rw [bind_eq_ok] at hwritten
  obtain ⟨r₁, hr₁, hwritten⟩ := hwritten
  obtain ⟨-, rfl⟩ := updateRunbookRunRow_eq_ok hr₁
  obtain ⟨rfl, -⟩ := Prod.mk.inj (pure_eq_ok.1 hwritten)
  exact ⟨rfl, lt_nextRunbookRunTimestamp _ _⟩

end Calls

/-- A call on one run that succeeds rewrites it. -/
theorem StoreCall.rewrites {call : StoreCall} {clock : Bytes → ℕ} {db db' : Db} {id : Bytes}
    (hid : call.runId? = some id) (h : call.run db clock = .ok db') : Rewrites db id db' := by
  have hmap : ∀ {β : Type} {x : Except StoreError (β × Db)}, x.map (·.2) = .ok db' →
      ∃ b, x = .ok (b, db') := by
    intro β x hx
    cases x with
    | error e => cases hx
    | ok p =>
        obtain ⟨b, db₁⟩ := p
        obtain rfl : db₁ = db' := Except.ok.inj hx
        exact ⟨b, rfl⟩
  cases call with
  | create | interrupt | expireOpen | expireAwaitingApproval | prune => cases hid
  | approve =>
      obtain rfl := Option.some.inj hid
      exact approveRunbookRun_rewrites (hmap h).choose_spec
  | reject =>
      obtain rfl := Option.some.inj hid
      exact rejectRunbookRun_rewrites (hmap h).choose_spec
  | update =>
      obtain rfl := Option.some.inj hid
      exact updateRunbookRun_rewrites (hmap h).choose_spec
  | updateStep =>
      obtain rfl := Option.some.inj hid
      exact updateRunbookRunStep_rewrites (hmap h).choose_spec
  | confirm =>
      obtain rfl := Option.some.inj hid
      exact confirmRunbookRunStep_rewrites (hmap h).choose_spec
  | pause | finish =>
      obtain rfl := Option.some.inj hid
      exact transitionRunbookRunWithStep_rewrites (hmap h).choose_spec
  | fail runId stepId stepState stepError reason =>
      obtain rfl := Option.some.inj hid
      obtain ⟨rows, hfail⟩ := hmap h
      rw [failRunbookRunStep, ite_error_eq_ok] at hfail
      exact transitionRunbookRunWithStep_rewrites hfail.2
  | cancel =>
      obtain rfl := Option.some.inj hid
      exact cancelRunbookRun_rewrites (hmap h).choose_spec
  | resume =>
      obtain rfl := Option.some.inj hid
      exact resumeRunbookRun_rewrites (hmap h).choose_spec
  | resumeMarkingStepDone runId expectedUpdatedAt stepId userId =>
      obtain rfl := Option.some.inj hid
      obtain ⟨r, hresume⟩ := hmap h
      rw [resumeRunbookRunMarkingStepDone, ite_error_eq_ok] at hresume
      exact resumeRunbookRun_rewrites hresume.2

/-- A run later on, after a call that is about another run or about none. -/
def Aged (r r' : RunbookRun) : Prop := r'.id = r.id ∧ (r' = r ∨ r.updatedAt < r'.updatedAt)

theorem interruptRunbookRun_aged (clock : Bytes → ℕ) (r : RunbookRun) :
    Aged r (interruptRunbookRun clock r) := by
  unfold interruptRunbookRun
  split
  · exact ⟨rfl, Or.inr (lt_nextRunbookRunTimestamp _ _)⟩
  · exact ⟨rfl, Or.inl rfl⟩

theorem expireOpenRunbookRun_aged (cutoff : ℕ) (clock : Bytes → ℕ) (r : RunbookRun) :
    Aged r (expireOpenRunbookRun cutoff clock r) := by
  unfold expireOpenRunbookRun
  split
  · exact ⟨rfl, Or.inr (lt_nextRunbookRunTimestamp _ _)⟩
  · exact ⟨rfl, Or.inl rfl⟩

theorem expireAwaitingApprovalRunbookRun_aged (cutoff : ℕ) (clock : Bytes → ℕ) (r : RunbookRun) :
    Aged r (expireAwaitingApprovalRunbookRun cutoff clock r) := by
  unfold expireAwaitingApprovalRunbookRun
  split
  · exact ⟨rfl, Or.inr (lt_nextRunbookRunTimestamp _ _)⟩
  · exact ⟨rfl, Or.inl rfl⟩

/-- The tables after a call: one run rewritten, all runs aged, some deleted, or one added. -/
inductive Written (db : Db) (call : StoreCall) : Db → Prop
  | rewritten {id : Bytes} {db' : Db} (about : call.runId? = some id) (h : Rewrites db id db') :
      Written db call db'
  | aged {f : RunbookRun → RunbookRun} (about : call.runId? = none) (h : ∀ r, Aged r (f r)) :
      Written db call ⟨db.runs.map f⟩
  | deleted {p : RunbookRun → Bool} (about : call.runId? = none) :
      Written db call ⟨db.runs.filter p⟩
  | created {r : RunbookRun} (about : call.runId? = none) (fresh : db.run? r.id = none) :
      Written db call ⟨db.runs ++ [r]⟩

theorem createRunbookRunWithState_fresh {db db' : Db} {title : Option Bytes} {newId : Bytes}
    {newStepIds : List Bytes} {runbookId startedBy : Bytes} {steps : List FrozenStep}
    {initialState : RunState} {requiresApproval : Bool} {now : ℕ} {r : RunbookRun}
    (h : createRunbookRunWithState db title newId newStepIds runbookId startedBy steps initialState
      requiresApproval now = .ok (r, db')) : db.run? r.id = none ∧ db' = ⟨db.runs ++ [r]⟩ := by
  unfold createRunbookRunWithState at h
  rw [ite_error_eq_ok, ite_error_eq_ok, ite_error_eq_ok] at h
  obtain ⟨-, -, -, h⟩ := h
  split at h
  · cases h
  · split at h
    · cases h
    · rw [ite_error_eq_ok] at h
      obtain ⟨hkeys, h⟩ := h
      obtain ⟨rfl, rfl⟩ := Prod.mk.inj (Except.ok.inj h)
      refine ⟨?_, rfl⟩
      simpa using (not_or.1 hkeys).1

/-- **What a call leaves.** -/
theorem StoreCall.written {call : StoreCall} {clock : Bytes → ℕ} {db db' : Db}
    (h : call.run db clock = .ok db') : Written db call db' := by
  have hsame : call.runId? = none → Written db call db := by
    intro habout
    have hid : Written db call ⟨db.runs.map id⟩ := .aged habout fun r => ⟨rfl, Or.inl rfl⟩
    rwa [List.map_id] at hid
  cases habout : call.runId? with
  | some id => exact .rewritten habout (call.rewrites habout h)
  | none =>
      cases call with
      | create =>
          simp only [StoreCall.run] at h
          cases hcreate : createRunbookRunWithState db _ _ _ _ _ _ _ _ _ with
          | error e =>
              rw [hcreate] at h
              cases h
          | ok p =>
              rw [hcreate] at h
              obtain ⟨r, db₁⟩ := p
              obtain rfl : db₁ = db' := Except.ok.inj h
              obtain ⟨hfresh, rfl⟩ := createRunbookRunWithState_fresh hcreate
              exact .created rfl hfresh
      | interrupt =>
          obtain rfl := Except.ok.inj h
          exact .aged rfl (interruptRunbookRun_aged clock)
      | expireOpen before =>
          obtain rfl := Except.ok.inj h
          cases before with
          | none => exact hsame rfl
          | some cutoff => exact .aged rfl (expireOpenRunbookRun_aged cutoff clock)
      | expireAwaitingApproval before =>
          obtain rfl := Except.ok.inj h
          cases before with
          | none => exact hsame rfl
          | some cutoff => exact .aged rfl (expireAwaitingApprovalRunbookRun_aged cutoff clock)
      | prune before =>
          obtain rfl := Except.ok.inj h
          cases before with
          | none => exact hsame rfl
          | some cutoff => exact .deleted rfl
      | _ => cases habout

/-- The ids of the runs stay distinct. -/
theorem Written.distinct {db db' : Db} {call : StoreCall} (h : Written db call db')
    (hdistinct : (db.runs.map (·.id)).Nodup) : (db'.runs.map (·.id)).Nodup := by
  cases h with
  | rewritten about h =>
      obtain ⟨r, r', hr, hid, -, rfl⟩ := h
      rw [Db.put, map_id_eq]
      · exact hdistinct
      · intro r₀
        split
        · next hid₀ => rw [hid₀, hid, (Db.run?_eq_some hr).2]
        · rfl
  | aged about h =>
      rw [map_id_eq fun r => (h r).1]
      exact hdistinct
  | deleted => exact hdistinct.sublist (List.filter_sublist.map _)
  | @created r about fresh =>
      rw [List.map_append, List.map_singleton, List.nodup_append]
      refine ⟨hdistinct, List.nodup_singleton _, ?_⟩
      rintro a ha b hb rfl
      obtain ⟨r₀, hr₀, rfl⟩ := List.mem_map.1 ha
      have hnone := List.find?_eq_none.1 fresh r₀ hr₀
      simp [List.mem_singleton.1 hb] at hnone

/-- **What a call does to a run that it keeps**: the run is as it was and the call about another, or
it has a later revision. -/
theorem Written.later {db db' : Db} {call : StoreCall} (h : Written db call db')
    (hdistinct : (db.runs.map (·.id)).Nodup) {id : Bytes} {r r' : RunbookRun}
    (hr : db.run? id = some r) (hr' : db'.run? id = some r') :
    (r' = r ∧ call.runId? ≠ some id) ∨ r.updatedAt < r'.updatedAt := by
  have hdistinct' := h.distinct hdistinct
  cases h with
  | @rewritten id₀ db' about h =>
      obtain ⟨r₀, r₁, hr₀, hid, hlt, rfl⟩ := h
      rw [Db.run?_put hr₀ (hid.trans (Db.run?_eq_some hr₀).2)] at hr'
      split at hr'
      · next hid₀ =>
          subst hid₀
          obtain rfl := Option.some.inj hr'
          obtain rfl := Option.some.inj (hr.symm.trans hr₀)
          exact Or.inr hlt
      · next hid₀ =>
          obtain rfl := Option.some.inj (hr.symm.trans hr')
          refine Or.inl ⟨rfl, fun habout => ?_⟩
          rw [about] at habout
          exact hid₀ (Option.some.inj habout).symm
  | @aged f about h =>
      rw [Db.run?_map fun r => (h r).1, hr] at hr'
      obtain rfl := Option.some.inj hr'
      rcases (h r).2 with hsame | hlt
      · exact Or.inl ⟨hsame, by simp [about]⟩
      · exact Or.inr hlt
  | @deleted p about =>
      obtain ⟨hmem', hid'⟩ := Db.run?_eq_some hr'
      obtain ⟨hmem, hid⟩ := Db.run?_eq_some hr
      have heq := List.inj_on_of_nodup_map hdistinct (List.mem_of_mem_filter hmem') hmem
        (hid'.trans hid.symm)
      exact Or.inl ⟨heq, by simp [about]⟩
  | @created r₀ about fresh =>
      obtain ⟨hmem', hid'⟩ := Db.run?_eq_some hr'
      obtain ⟨hmem, hid⟩ := Db.run?_eq_some hr
      have heq := List.inj_on_of_nodup_map hdistinct' hmem'
        (List.mem_append_left _ hmem) (hid'.trans hid.symm)
      exact Or.inl ⟨heq, by simp [about]⟩

/-! ### Revisions never repeat -/

/-- The ids of the runs are distinct in every reachable state. -/
theorem storeInYears_distinct {db : Db} (h : storeInYears.Reachable db) :
    (db.runs.map (·.id)).Nodup := by
  refine h.invariant (I := fun db => (db.runs.map (·.id)).Nodup) ?_ ?_
  · intro db hempty
    rw [show db.runs = [] from hempty]
    exact List.nodup_nil
  · intro db call db' hdistinct hstep
    exact (StoreCall.written (And.left hstep)).distinct hdistinct

/-- Until the year 10000 no revision lies after it. -/
theorem storeInYears_years {db : Db} (h : storeInYears.Reachable db) :
    ∀ r ∈ db.runs, r.updatedAt < endOfYears := by
  refine h.invariant (I := fun db => ∀ r ∈ db.runs, r.updatedAt < endOfYears) ?_ ?_
  · intro db hempty r hr
    rw [show db.runs = [] from hempty] at hr
    cases hr
  · intro db call db' _ hstep
    exact hstep.2.2

theorem storeKeeping_years {id : Bytes} {s t : Db} {calls : List (StoreCall × (Bytes → ℕ))}
    (h : (storeKeeping id).Run s calls t) (hs : ∀ r ∈ s.runs, r.updatedAt < endOfYears) :
    ∀ r ∈ t.runs, r.updatedAt < endOfYears :=
  Machine.Run.invariant (M := storeKeeping id)
    (I := fun db => ∀ r ∈ db.runs, r.updatedAt < endOfYears)
    (fun _ _ _ _ hstep => hstep.1.2.2) h hs

theorem storeKeeping_distinct {id : Bytes} {s t : Db} {calls : List (StoreCall × (Bytes → ℕ))}
    (h : (storeKeeping id).Run s calls t) (hs : (s.runs.map (·.id)).Nodup) :
    (t.runs.map (·.id)).Nodup :=
  Machine.Run.invariant (M := storeKeeping id) (I := fun db => (db.runs.map (·.id)).Nodup)
    (fun _ _ _ hdistinct hstep => (StoreCall.written hstep.1.1).distinct hdistinct) h hs

/-- **A run of calls**: the run is as it was, and no call was about it, or it has a later
revision. -/
theorem storeKeeping_later {id : Bytes} {s t : Db} {calls : List (StoreCall × (Bytes → ℕ))}
    (h : (storeKeeping id).Run s calls t) (hs : (s.runs.map (·.id)).Nodup) {r r' : RunbookRun}
    (hr : s.run? id = some r) (hr' : t.run? id = some r') :
    (r' = r ∧ ∀ call ∈ calls, call.1.runId? ≠ some id) ∨ r.updatedAt < r'.updatedAt := by
  induction h generalizing r' with
  | nil =>
      obtain rfl := Option.some.inj (hr.symm.trans hr')
      exact Or.inl ⟨rfl, by simp⟩
  | @snoc t u calls call hrun hstep ih =>
      have hkept : (t.run? id).isSome = true := by
        cases hrun with
        | nil => simp [hr]
        | snoc _ hlast => exact hlast.2
      obtain ⟨r₁, hr₁⟩ := Option.isSome_iff_exists.1 hkept
      have hdistinct := storeKeeping_distinct hrun hs
      rcases ih hr₁, (StoreCall.written hstep.1.1).later hdistinct hr₁ hr' with
        ⟨⟨rfl, hcalls⟩ | hlt, ⟨rfl, hcall⟩ | hlt'⟩
      · refine Or.inl ⟨rfl, fun c hc => ?_⟩
        rcases List.mem_append.1 hc with hc | hc
        · exact hcalls c hc
        · rw [List.mem_singleton.1 hc]
          exact hcall
      · exact Or.inr hlt'
      · exact Or.inr hlt
      · exact Or.inr (hlt.trans hlt')

theorem resumeRunbookRunRead_eq_ok {db : Db} {runId expectedUpdatedAt expectedStepId : Bytes}
    {markDone : Bool} {userId : Bytes} {now : ℕ} {result : RunbookRun × Db}
    (h : resumeRunbookRunRead db runId expectedUpdatedAt expectedStepId markDone userId now =
      .ok result) :
    ∃ parent, db.run? runId = some parent ∧
      runbookRunTimestamp parent.updatedAt = expectedUpdatedAt := by
  rw [resumeRunbookRunRead, ite_error_eq_ok, bind_eq_ok] at h
  obtain ⟨-, parent, hparent, h⟩ := h
  rw [ite_error_eq_ok] at h
  unfold lockRunbookRun at hparent
  split at hparent
  · cases hparent
  · next r hr =>
      obtain rfl := Except.ok.inj hparent
      exact ⟨r, hr, not_not.1 h.1⟩

/-- **Revisions never repeat.**  Let a run be kept through any sequence of calls, under any clock
readings, while these and the revisions stay before the year 10000.  Then:

* it is as it was and no call was about it, or its revision has become a later text;
* a resume at the revision that was read at the start succeeds only if the run was left as it was
  read all the time, and no call was about it;
* the next revision is the text of a later instant than the last;
* its times compare with a normalised cutoff as the instants do. -/
theorem revisions_never_repeat {id : Bytes} {s t : Db} {calls : List (StoreCall × (Bytes → ℕ))}
    (hs : storeInYears.Reachable s) (h : (storeKeeping id).Run s calls t) {r r' : RunbookRun}
    (hr : s.run? id = some r) (hr' : t.run? id = some r') :
    ((r' = r ∧ ∀ call ∈ calls, call.1.runId? ≠ some id) ∨
      runbookRunTimestamp r.updatedAt < runbookRunTimestamp r'.updatedAt) ∧
    (∀ stepId markDone userId now result,
      resumeRunbookRunRead t id (runbookRunTimestamp r.updatedAt) stepId markDone userId now =
        .ok result →
      (∀ call ∈ calls, call.1.runId? ≠ some id) ∧
        ∀ pre post v, calls = pre ++ post → (storeKeeping id).Run s pre v →
          (storeKeeping id).Run v post t → v.run? id = some r) ∧
    (∀ now, nextRunbookRunTimestampText (runbookRunTimestamp r'.updatedAt) now =
        runbookRunTimestamp (nextRunbookRunTimestamp r'.updatedAt now) ∧
      r'.updatedAt < nextRunbookRunTimestamp r'.updatedAt now) ∧
    (∀ before cutoff, parseTime before = some cutoff → cutoff < endOfYears →
      ∃ text, normalizeRunbookRunCutoff before = some text ∧
        (runbookRunTimestamp r'.updatedAt < text ↔ r'.updatedAt < cutoff) ∧
        ∀ finishedAt, r'.finishedAt = some finishedAt → finishedAt < endOfYears →
          (runbookRunTimestamp finishedAt < text ↔ finishedAt < cutoff)) := by
  have hdistinct := storeInYears_distinct hs
  have hyears : r'.updatedAt < endOfYears :=
    storeKeeping_years h (storeInYears_years hs) r' (Db.run?_eq_some hr').1
  have hlater := storeKeeping_later h hdistinct hr hr'
  refine ⟨?_, fun stepId markDone userId now result hresume => ?_, fun now => ?_,
    fun before cutoff hbefore hcutoff => ?_⟩
  · rcases hlater with hsame | hlt
    · exact Or.inl hsame
    · exact Or.inr ((runbookRunTimestamp_lt_iff (hlt.trans hyears) hyears).2 hlt)
  · obtain ⟨parent, hparent, htext⟩ := resumeRunbookRunRead_eq_ok hresume
    obtain rfl := Option.some.inj (hr'.symm.trans hparent)
    have hle : r.updatedAt ≤ r'.updatedAt := by
      rcases hlater with ⟨rfl, -⟩ | hlt
      · exact le_rfl
      · exact hlt.le
    have hrevision := (runbookRunTimestamp_eq_iff hyears (hle.trans_lt hyears)).1 htext
    have hnot : ¬ r.updatedAt < r'.updatedAt := by omega
    refine ⟨(hlater.resolve_right hnot).2, fun pre post v hcalls hpre hpost => ?_⟩
    -- a later revision in between would be earlier than the last one
    have hkept : (v.run? id).isSome = true := by
      cases hpre with
      | nil => simp [hr]
      | snoc _ hlast => exact hlast.2
    obtain ⟨r₁, hr₁⟩ := Option.isSome_iff_exists.1 hkept
    have hfirst := storeKeeping_later hpre hdistinct hr hr₁
    have hsecond := storeKeeping_later hpost (storeKeeping_distinct hpre hdistinct) hr₁ hr'
    rcases hfirst with ⟨rfl, -⟩ | hlt
    · exact hr₁
    · exfalso
      rcases hsecond with ⟨rfl, -⟩ | hlt'
      · exact hnot hlt
      · exact hnot (hlt.trans hlt')
  · exact ⟨nextRunbookRunTimestampText_eq hyears now, lt_nextRunbookRunTimestamp _ _⟩
  · refine ⟨runbookRunTimestamp cutoff, by rw [normalizeRunbookRunCutoff, hbefore]; rfl,
      runbookRunTimestamp_lt_iff hyears hcutoff, fun finishedAt _ hfinished =>
      runbookRunTimestamp_lt_iff hfinished hcutoff⟩

/-! ### The end of the year 9999 -/

/-- A run with one manual step is created. -/
def sampleCreate : StoreCall :=
  .create (some [1]) [2] [[3]] [4] [5]
    [{ kind := .manual, title := [6], connectorId := [], verb := [], entityRef := [], fieldKey := []
       targetValue := [], attributeName := [], operator := [], expectedValue := [], action := []
       actionFingerprint := [], timeoutSeconds := 0 }] .running false

/-- Its step is reached. -/
def samplePause : StoreCall := .pause [2] [3]

/-- The tables after calls under a clock that stands still; a call that fails changes nothing. -/
def sampleTables (now : ℕ) (calls : List StoreCall) : Db :=
  calls.foldl (fun db call => (call.run db fun _ => now).toOption.getD db) ⟨[]⟩

/-- The revision of the run. -/
def sampleRevision (db : Db) : Option ℕ := (db.run? [2]).map (·.updatedAt)

theorem sampleTables_create (now : ℕ) :
    store.Reachable (sampleTables now [sampleCreate]) ∧
      sampleRevision (sampleTables now [sampleCreate]) = some now :=
  ⟨(Machine.Reachable.of_init (M := store) (s := ⟨[]⟩) rfl).step (a := (sampleCreate, fun _ => now))
    rfl, rfl⟩

theorem sampleTables_pause (now : ℕ) :
    store.Run (sampleTables now [sampleCreate]) [(samplePause, fun _ => now)]
      (sampleTables now [sampleCreate, samplePause]) ∧
    sampleRevision (sampleTables now [sampleCreate, samplePause]) =
      some (nextRunbookRunTimestamp now now) :=
  ⟨.single rfl, rfl⟩

theorem sampleTables_inYears (now : ℕ) (h : nextRunbookRunTimestamp now now < endOfYears) :
    storeInYears.Reachable (sampleTables now [sampleCreate]) ∧
      (storeKeeping [2]).Run (sampleTables now [sampleCreate]) [(samplePause, fun _ => now)]
        (sampleTables now [sampleCreate, samplePause]) := by
  have hnow : now < endOfYears := (lt_nextRunbookRunTimestamp now now).trans h
  have hcreate : ∀ r ∈ (sampleTables now [sampleCreate]).runs, r.updatedAt < endOfYears := by
    intro r hr
    rw [List.mem_singleton.1 hr]
    exact hnow
  have hpause : ∀ r ∈ (sampleTables now [sampleCreate, samplePause]).runs,
      r.updatedAt < endOfYears := by
    intro r hr
    rw [List.mem_singleton.1 hr]
    exact h
  refine ⟨?_, .single ⟨⟨rfl, fun _ => hnow, hpause⟩, rfl⟩⟩
  exact (Machine.Reachable.of_init (M := storeInYears) (s := ⟨[]⟩) rfl).step
    (a := (sampleCreate, fun _ => now)) ⟨rfl, fun _ => hnow, hcreate⟩

theorem revisions_never_repeat_sample :
    runbookRunTimestamp 7 < runbookRunTimestamp 8 := by
  obtain ⟨hreachable, hrun⟩ := sampleTables_inYears 7 (by decide)
  obtain ⟨r, hr, hupdated⟩ := Option.map_eq_some_iff.1 (sampleTables_create 7).2
  obtain ⟨r', hr', hupdated'⟩ := Option.map_eq_some_iff.1 (sampleTables_pause 7).2
  have hall := (revisions_never_repeat hreachable hrun hr hr').1
  rcases hall with ⟨-, hcalls⟩ | hlt
  · exact absurd rfl (hcalls _ (List.mem_singleton_self _))
  · rw [hupdated, hupdated'] at hlt
    exact hlt

/-- A clock that stands still at the end of the year 9999: the next revision is an earlier text, and
the one after it is the same text again. -/
theorem revisions_repeat_after_9999 : ∃ s t r r' call, store.Reachable s ∧
    store.Run s [call] t ∧ s.run? [2] = some r ∧ t.run? [2] = some r' ∧
    runbookRunTimestamp r'.updatedAt < runbookRunTimestamp r.updatedAt ∧
    nextRunbookRunTimestampText (runbookRunTimestamp r'.updatedAt) endOfYears =
      runbookRunTimestamp r'.updatedAt := by
  obtain ⟨hreachable, hrevision⟩ := sampleTables_create (endOfYears - 1)
  obtain ⟨hrun, hrevision'⟩ := sampleTables_pause (endOfYears - 1)
  obtain ⟨r, hr, hupdated⟩ := Option.map_eq_some_iff.1 hrevision
  obtain ⟨r', hr', hupdated'⟩ := Option.map_eq_some_iff.1 hrevision'
  refine ⟨_, _, r, r', _, hreachable, hrun, hr, hr', ?_, ?_⟩
  · rw [hupdated, hupdated']
    decide
  · rw [hupdated']
    decide

end WiseLabz.Runbook
