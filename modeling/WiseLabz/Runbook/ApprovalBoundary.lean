/-
**The approval boundary.**

If every start reads the flag of the version whose steps it has listed, the steps of a run and its
flag are those of one version, a run that asks for approval is untouched until it is approved, and
what a request has read of a run stays so.  A start that reads across an edit makes a run at once of
steps that ask for approval.

Main definitions:

* `Runbook.ApprovalInv` — the invariant;
* `Runbook.Leaves` — what a step does to the runs, to the record of their versions and to the
  approvals.

Main results:

* `Runbook.ApprovalSys.next_step` — what a step that meets the condition does;
* `Runbook.ApprovalInv.next` — the invariant is kept;
* `Runbook.approval_boundary` — **no step of a request is executed without approval**, in every run
  of such steps;
* `Runbook.executed_without_approval` — a run in which one is.
-/

import WiseLabz.Lib.Threads
import WiseLabz.Runbook.Approval

set_option relaxedAutoImplicit false
set_option autoImplicit false

namespace WiseLabz.Runbook

open Lib

/-! ### What the steps keep -/

/-- What the request has read of the run is still so. -/
def ReadRun (s : ApprovalSys) (run : RunbookRun) : Prop :=
  run.id ∈ s.origins.map Prod.fst ∧ ∀ r ∈ s.db.runs, r.id = run.id →
    r.startedBy = run.startedBy ∧
      r.steps.map (·.toFrozenStep) = run.steps.map (·.toFrozenStep)

/-- What is known of a request. -/
def ApprovalRequest.Ok (s : ApprovalSys) : ApprovalRequest → Prop
  | .authorizingStart _ _ version _ | .readingRunbook _ version => version ∈ s.committed
  | .starting _ version => version ∈ s.committed ∧ version.requiresApproval = false
  | .findingApprovers _ version | .requesting _ version | .creating _ version =>
      version ∈ s.committed ∧ version.requiresApproval = true
  | .authorizing _ _ _ run _ | .findingUser _ _ run => ReadRun s run
  | .checkingRoles _ userId run seen todo =>
      ReadRun s run ∧ userId ≠ run.startedBy ∧ seen.enabled = true ∧
        ∀ role ∈ requiredRoles (run.steps.map (·.toFrozenStep)), role ∈ seen.held ∨ role ∈ todo
  | .deciding _ userId run seen =>
      ReadRun s run ∧ userId ≠ run.startedBy ∧ seen.enabled = true ∧
        ∀ role ∈ requiredRoles (run.steps.map (·.toFrozenStep)), role ∈ seen.held
  | .returned => True

/-- **The invariant.** -/
structure ApprovalInv (s : ApprovalSys) : Prop where
  current : s.current ∈ s.committed
  distinct : (s.db.runs.map (·.id)).Nodup
  origins : (s.origins.map Prod.fst).Nodup
  ofVersion : ∀ r ∈ s.db.runs, ∃ v ∈ s.committed, (r.id, v) ∈ s.origins ∧
    r.steps.map (·.toFrozenStep.authored) = freezeSteps v.steps ∧
      r.requiresApproval = v.requiresApproval
  untouched : ∀ r ∈ s.db.runs, r.requiresApproval = true →
    (∀ a ∈ s.approvals, a.runId ≠ r.id) → Untouched r
  approved : ∀ a ∈ s.approvals, a.runId ∈ s.origins.map Prod.fst ∧
    ∀ r ∈ s.db.runs, a.runId = r.id → ApprovedBy r a ∧ r.steps.map (·.toFrozenStep) = a.shown
  requests : ∀ q ∈ s.requests, q.Ok s

/-- **What a step does to the runs**, to the record of their versions and to the approvals. -/
inductive Leaves (s t : ApprovalSys) : Prop
  | kept (runs : ∀ r' ∈ t.db.runs, ∃ r ∈ s.db.runs, Keeps r r')
      (distinct : (s.db.runs.map (·.id)).Nodup → (t.db.runs.map (·.id)).Nodup)
      (origins : t.origins = s.origins) (approvals : t.approvals = s.approvals)
  | created {r : RunbookRun} {v : RunbookVersion} (fresh : r.id ∉ s.origins.map Prod.fst)
      (runs : t.db.runs = s.db.runs ++ [r]) (origins : t.origins = s.origins ++ [(r.id, v)])
      (approvals : t.approvals = s.approvals) (version : v ∈ s.committed)
      (authored : r.steps.map (·.toFrozenStep.authored) = freezeSteps v.steps)
      (requires : r.requiresApproval = v.requiresApproval)
      (pending : ∀ step ∈ r.steps, step.state = .pending)
      (awaiting : r.requiresApproval = true → r.state = .awaitingApproval)
  | approved {r r' : RunbookRun} {a : Approval} (found : s.db.run? a.runId = some r)
      (awaiting : r.state = .awaitingApproval) (id : r'.id = r.id)
      (startedBy : r'.startedBy = r.startedBy)
      (requires : r'.requiresApproval = r.requiresApproval) (steps : r'.steps = r.steps)
      (runs : t.db = s.db.put a.runId r') (origins : t.origins = s.origins)
      (approvals : t.approvals = s.approvals ++ [a]) (by_ : ApprovedBy r a)
      (shown : r.steps.map (·.toFrozenStep) = a.shown)

/-- A step, as the invariant needs to know it. -/
structure ApprovalStep (s t : ApprovalSys) : Prop where
  committed : ∀ v ∈ s.committed, v ∈ t.committed
  current : t.current ∈ t.committed
  leaves : Leaves s t
  requests : ∀ q ∈ t.requests, q.Ok s

theorem Leaves.of_eq {s t : ApprovalSys} (hdb : t.db = s.db) (horigins : t.origins = s.origins)
    (happrovals : t.approvals = s.approvals) : Leaves s t := by
  refine .kept ?_ ?_ horigins happrovals
  · rw [hdb]
    exact fun r hr => ⟨r, hr, .refl r⟩
  · rw [hdb]
    exact id

/-- A request goes on, and nothing else changes. -/
theorem ApprovalStep.goTo {s : ApprovalSys} (hinv : ApprovalInv s) {i : ℕ} {q : ApprovalRequest}
    (hq : q.Ok s) : ApprovalStep s (s.goTo i q) where
  committed _ hv := hv
  current := hinv.current
  leaves := .of_eq rfl rfl rfl
  requests := forall_mem_set hinv.requests hq

/-- A request goes on or ends. -/
theorem ApprovalStep.goTo_ite {s : ApprovalSys} (hinv : ApprovalInv s) {i : ℕ} {c : Prop}
    [Decidable c] {q q' : ApprovalRequest} (hq : c → q.Ok s) (hq' : ¬c → q'.Ok s) :
    ApprovalStep s (s.goTo i (if c then q else q')) := by
  refine .goTo hinv ?_
  split
  · next hc => exact hq hc
  · next hc => exact hq' hc

/-- The run that is read. -/
theorem ApprovalInv.readRun {s : ApprovalSys} (hinv : ApprovalInv s) {id : Bytes}
    {run : RunbookRun} (hrun : s.db.run? id = some run) : ReadRun s run := by
  obtain ⟨hmem, -⟩ := Db.run?_eq_some hrun
  obtain ⟨v, -, horigin, -⟩ := hinv.ofVersion run hmem
  refine ⟨List.mem_map.2 ⟨_, horigin, rfl⟩, fun r hr hid => ?_⟩
  rw [List.inj_on_of_nodup_map hinv.distinct hr hmem hid]
  exact ⟨rfl, rfl⟩

/-- The steps of a new run are the given ones. -/
theorem newRunbookRunSteps_frozen {steps : List FrozenStep} {newStepIds : List Bytes}
    (hlength : newStepIds.length = steps.length) :
    (newRunbookRunSteps steps newStepIds).map (·.toFrozenStep) = steps := by
  rw [newRunbookRunSteps, List.mapIdx_eq_zipIdx_map, List.map_map]
  rw [show (RunbookRunStepRecord.toFrozenStep ∘ fun a : (FrozenStep × Bytes) × ℕ => _) =
    Prod.fst ∘ Prod.fst from rfl, ← List.map_map, List.zipIdx_map_fst, List.map_fst_zip (by omega)]

/-- The fingerprints are not authored. -/
theorem freezeActionFingerprints_authored (fingerprint : FrozenStep → Bytes)
    (steps : List RunbookStep) :
    (freezeActionFingerprints fingerprint (freezeSteps steps)).map FrozenStep.authored =
      freezeSteps steps := by
  rw [freezeActionFingerprints, freezeSteps, List.map_map, List.map_map]
  refine List.map_congr_left fun step _ => ?_
  dsimp only [Function.comp_apply]
  split <;> rfl

/-- What is in a new run. -/
theorem createRunbookRunWithState_run {db db' : Db} {title : Option Bytes} {newId : Bytes}
    {newStepIds : List Bytes} {runbookId startedBy : Bytes} {steps : List FrozenStep}
    {initialState : RunState} {requiresApproval : Bool} {now : ℕ} {r : RunbookRun}
    (h : createRunbookRunWithState db title newId newStepIds runbookId startedBy steps initialState
      requiresApproval now = .ok (r, db')) :
    r.steps.map (·.toFrozenStep) = steps ∧ r.requiresApproval = requiresApproval ∧
      r.state = initialState := by
  unfold createRunbookRunWithState at h
  rw [ite_error_eq_ok, ite_error_eq_ok, ite_error_eq_ok] at h
  obtain ⟨-, -, -, h⟩ := h
  split at h
  · cases h
  · split at h
    · cases h
    · rw [ite_error_eq_ok] at h
      obtain ⟨hkeys, h⟩ := h
      obtain ⟨rfl, rfl⟩ := Prod.mk.inj (Except.ok.inj h)
      simp only [not_or, not_not] at hkeys
      exact ⟨newRunbookRunSteps_frozen hkeys.2.1, rfl, rfl⟩

section Steps

variable {runbookId : Bytes} {s t : ApprovalSys} {i : ℕ} {c : ApprovalChance}

/-- The creation of a run whose flag is that of the version. -/
theorem ApprovalSys.create_step (hinv : ApprovalInv s) {userId : Bytes} {version : RunbookVersion}
    {initialState : RunState} {requiresApproval : Bool} (hversion : version ∈ s.committed)
    (hflag : requiresApproval = version.requiresApproval)
    (hstate : requiresApproval = true → initialState = .awaitingApproval)
    (h : s.create runbookId i userId version initialState requiresApproval c = some t) :
    ApprovalStep s t := by
  rw [ApprovalSys.create] at h
  split at h
  · obtain rfl := Option.some.inj h
    exact .goTo hinv trivial
  · split at h
    · cases h
    · next hnew =>
        split at h
        · obtain rfl := Option.some.inj h
          exact .goTo hinv trivial
        · next r db' hcreate =>
            obtain rfl := Option.some.inj h
            obtain ⟨-, hid, -, rfl, hpending⟩ := createRunbookRunWithState_eq_ok hcreate
            obtain ⟨hsteps, hrequires, hinitial⟩ := createRunbookRunWithState_run hcreate
            have hfresh : r.id ∉ s.origins.map Prod.fst := hid ▸ hnew
            refine ⟨fun _ hv => hv, hinv.current, ?_, forall_mem_set hinv.requests trivial⟩
            refine .created hfresh rfl (by rw [hid]) rfl hversion ?_
              (hrequires.trans hflag) hpending ?_
            · have hauthored := freezeActionFingerprints_authored c.fingerprint version.steps
              rw [← hsteps, List.map_map] at hauthored
              exact hauthored
            · rw [hrequires, hinitial]
              exact hstate

/-- The approval, by a user whose rights were seen. -/
theorem ApprovalSys.approve_step (hinv : ApprovalInv s) {userId : Bytes} {run : RunbookRun}
    {seen : Evidence} {clock : Bytes → ℕ} {db' : Db}
    (hq : (ApprovalRequest.deciding .approve userId run seen).Ok s)
    (h : (StoreCall.approve run.id userId).run s.db clock = .ok db') :
    ApprovalStep s { s.goTo i .returned with
      db := db'
      approvals := s.approvals ++ [⟨run.id, userId, seen, run.steps.map (·.toFrozenStep)⟩] } := by
  obtain ⟨⟨-, hread⟩, hother, henabled, hheld⟩ := hq
  refine ⟨fun _ hv => hv, hinv.current, ?_, forall_mem_set hinv.requests trivial⟩
  simp only [StoreCall.run] at h
  cases happrove : approveRunbookRun s.db run.id userId (clock run.id) with
  | error e =>
      rw [happrove] at h
      cases h
  | ok p =>
      obtain ⟨r₁, db₁⟩ := p
      rw [happrove] at h
      obtain rfl : db₁ = db' := Except.ok.inj h
      obtain ⟨r, r', hr, hwritten, hdb⟩ := withinTransaction_eq_ok.1 happrove
      rw [ite_error_eq_ok] at hwritten
      obtain ⟨hstate, hwritten⟩ := hwritten
      obtain ⟨hr', -⟩ := Prod.mk.inj (Except.ok.inj hwritten)
      obtain ⟨hmem, hid⟩ := Db.run?_eq_some hr
      obtain ⟨hby, hfrozen⟩ := hread r hmem hid
      refine .approved hr (not_not.1 hstate) (by rw [← hr']) (by rw [← hr']) (by rw [← hr'])
        (by rw [← hr']) hdb rfl rfl ?_ hfrozen
      refine ⟨hid.symm, ?_, henabled, ?_⟩
      · rw [hby]
        exact hother
      · rw [hfrozen]
        exact hheld

/-- A call that neither creates nor approves a run. -/
theorem Leaves.of_call {call : StoreCall} {clock : Bytes → ℕ} (hother : call.isOther = true)
    (h : call.run s.db clock = .ok t.db) (horigins : t.origins = s.origins)
    (happrovals : t.approvals = s.approvals) : Leaves s t :=
  .kept (call.keeps hother h) (StoreCall.written h).distinct horigins happrovals

/-- **A call of a request.** -/
theorem ApprovalSys.advance_step (hinv : ApprovalInv s)
    (hcond : readsOneVersion s (.advance i c) = true) (h : s.advance runbookId i c = some t) :
    ApprovalStep s t := by
  rw [ApprovalSys.advance] at h
  split at h
  · cases h
  · cases h
  · next q hlive hq =>
      have hok : q.Ok s := hinv.requests q (List.mem_of_getElem? hq)
      split at h
      · obtain rfl := Option.some.inj h
        exact .goTo hinv trivial
      · next hio =>
          split at h
          case h_1 userId readOnly version =>
            obtain rfl := Option.some.inj h
            exact .goTo_ite hinv (fun _ => trivial) fun _ => hok
          case h_2 userId readOnly version role todo =>
            obtain rfl := Option.some.inj h
            exact .goTo_ite hinv (fun _ => hok) fun _ => trivial
          case h_3 userId version =>
            obtain rfl := Option.some.inj h
            have hflag : version.requiresApproval = s.current.requiresApproval := by
              rw [readsOneVersion, hq] at hcond
              simpa [hio] using hcond
            refine .goTo_ite hinv (fun _ => trivial) fun _ => ?_
            split
            · next hrequires => exact ⟨hok, hflag.trans hrequires⟩
            · next hrequires =>
                split
                · exact ⟨hok, hflag.trans (by simpa using hrequires)⟩
                · trivial
          case h_4 userId version =>
            obtain rfl := Option.some.inj h
            exact .goTo_ite hinv (fun _ => hok) fun _ => trivial
          case h_5 userId version =>
            exact create_step hinv hok.1 hok.2.symm (fun h => by cases h) h
          case h_6 userId version =>
            obtain rfl := Option.some.inj h
            exact .goTo_ite hinv (fun _ => hok) fun _ => trivial
          case h_7 userId version =>
            exact create_step hinv hok.1 hok.2.symm (fun _ => rfl) h
          case h_8 decision userId readOnly run =>
            obtain rfl := Option.some.inj h
            exact .goTo_ite hinv (fun _ => trivial) fun _ => hok
          case h_9 decision userId readOnly run role todo =>
            obtain rfl := Option.some.inj h
            exact .goTo_ite hinv (fun _ => hok) fun _ => trivial
          case h_10 decision userId run =>
            obtain rfl := Option.some.inj h
            refine .goTo_ite hinv (fun _ => trivial) fun hgo => ?_
            simp only [not_or, Bool.not_eq_true', Bool.not_eq_false] at hgo
            exact ⟨hok, hgo.2.1, hgo.2.2, fun role hrole => Or.inr hrole⟩
          case h_11 decision userId run seen =>
            obtain rfl := Option.some.inj h
            obtain ⟨hread, hother, henabled, hheld⟩ := hok
            refine .goTo_ite hinv (fun _ => trivial) fun _ => ⟨hread, hother, henabled, ?_⟩
            exact fun role hrole => (hheld role hrole).resolve_right (List.not_mem_nil)
          case h_12 decision userId run seen role todo =>
            obtain rfl := Option.some.inj h
            obtain ⟨hread, hother, henabled, hheld⟩ := hok
            refine .goTo_ite hinv (fun _ => ⟨hread, hother, henabled, ?_⟩) fun _ => trivial
            intro role' hrole'
            rcases hheld role' hrole' with hheld | htodo
            · exact Or.inl (List.mem_append_left _ hheld)
            · rcases List.mem_cons.1 htodo with rfl | htodo
              · exact Or.inl (List.mem_append_right _ (List.mem_singleton_self _))
              · exact Or.inr htodo
          case h_13 userId run seen =>
            split at h
            · obtain rfl := Option.some.inj h
              exact .goTo hinv trivial
            · next hcall =>
                obtain rfl := Option.some.inj h
                exact approve_step hinv hok hcall
          case h_14 userId run seen =>
            split at h
            · obtain rfl := Option.some.inj h
              exact .goTo hinv trivial
            · next hcall =>
                obtain rfl := Option.some.inj h
                exact ⟨fun _ hv => hv, hinv.current, .of_call rfl hcall rfl rfl,
                  forall_mem_set hinv.requests trivial⟩
          case h_15 => cases h

/-- **A step** that meets the condition. -/
theorem ApprovalSys.next_step (hinv : ApprovalInv s) {ev : ApprovalEvent}
    (hcond : readsOneVersion s ev = true) (h : s.next runbookId ev = some t) :
    ApprovalStep s t := by
  cases ev with
  | edit steps requiresApproval =>
      obtain rfl := Option.some.inj h
      exact ⟨fun _ hv => List.mem_append_left _ hv,
        List.mem_append_right _ (List.mem_singleton_self _), .of_eq rfl rfl rfl, hinv.requests⟩
  | grant operators instanceAdmins enabledUsers =>
      obtain rfl := Option.some.inj h
      exact ⟨fun _ hv => hv, hinv.current, .of_eq rfl rfl rfl, hinv.requests⟩
  | submitStart userId readOnly =>
      obtain rfl := Option.some.inj h
      exact ⟨fun _ hv => hv, hinv.current, .of_eq rfl rfl rfl,
        forall_mem_append_singleton hinv.requests hinv.current⟩
  | submitDecision decision userId readOnly runId =>
      rw [ApprovalSys.next] at h
      split at h
      · cases h
      · next run hrun =>
          obtain rfl := Option.some.inj h
          exact ⟨fun _ hv => hv, hinv.current, .of_eq rfl rfl rfl,
            forall_mem_append_singleton hinv.requests (hinv.readRun hrun)⟩
  | advance i c => exact advance_step hinv hcond h
  | call call clock =>
      rw [ApprovalSys.next] at h
      split at h
      · next hother =>
          split at h
          · cases h
          · next hcall =>
              obtain rfl := Option.some.inj h
              exact ⟨fun _ hv => hv, hinv.current, .of_call hother hcall rfl rfl, hinv.requests⟩
      · cases h
  | crash =>
      obtain rfl := Option.some.inj h
      exact ⟨fun _ hv => hv, hinv.current, .of_eq rfl rfl rfl, fun _ hq => nomatch hq⟩

end Steps

/-! ### The invariant is kept -/

section Keeping

variable {s t : ApprovalSys}

/-- Each run is one that was there before, or a new one. -/
theorem Leaves.runs (h : Leaves s t) : ∀ r' ∈ t.db.runs,
    (∃ r ∈ s.db.runs, r'.id = r.id ∧ r'.startedBy = r.startedBy ∧
      r'.requiresApproval = r.requiresApproval ∧
        r'.steps.map (·.toFrozenStep) = r.steps.map (·.toFrozenStep)) ∨
      r'.id ∉ s.origins.map Prod.fst := by
  intro r' hr'
  cases h with
  | kept runs =>
      obtain ⟨r, hr, hkeeps⟩ := runs r' hr'
      exact Or.inl ⟨r, hr, hkeeps.id, hkeeps.startedBy, hkeeps.requiresApproval, hkeeps.frozen⟩
  | created fresh runs =>
      rw [runs] at hr'
      rcases List.mem_append.1 hr' with hr | hr
      · exact Or.inl ⟨r', hr, rfl, rfl, rfl, rfl⟩
      · rw [List.mem_singleton.1 hr]
        exact Or.inr fresh
  | @approved r r₁ a found awaiting id startedBy requires steps runs =>
      rw [runs] at hr'
      obtain ⟨x, hx, rfl⟩ := List.mem_map.1 hr'
      left
      split
      · exact ⟨r, (Db.run?_eq_some found).1, id, startedBy, requires, by rw [steps]⟩
      · exact ⟨x, hx, rfl, rfl, rfl, rfl⟩

theorem Leaves.origins_subset (h : Leaves s t) : ∀ o ∈ s.origins, o ∈ t.origins := by
  cases h with
  | kept _ _ origins => exact fun o ho => origins ▸ ho
  | created _ _ origins => exact fun o ho => origins ▸ List.mem_append_left _ ho
  | approved _ _ _ _ _ _ _ origins => exact fun o ho => origins ▸ ho

theorem Leaves.mem_origins (h : Leaves s t) {id : Bytes} (hid : id ∈ s.origins.map Prod.fst) :
    id ∈ t.origins.map Prod.fst := by
  obtain ⟨o, ho, rfl⟩ := List.mem_map.1 hid
  exact List.mem_map_of_mem (h.origins_subset o ho)

/-- What was read of a run is still so. -/
theorem Leaves.readRun (h : Leaves s t) {run : RunbookRun} (hread : ReadRun s run) :
    ReadRun t run := by
  refine ⟨h.mem_origins hread.1, fun r' hr' hid => ?_⟩
  rcases h.runs r' hr' with ⟨r, hr, hid₀, hby, -, hfrozen⟩ | hnew
  · obtain ⟨hby₀, hfrozen₀⟩ := hread.2 r hr (hid₀.symm.trans hid)
    exact ⟨hby.trans hby₀, hfrozen.trans hfrozen₀⟩
  · exact absurd (hid ▸ hread.1) hnew

/-- What is known of a request stays known. -/
theorem ApprovalStep.request (h : ApprovalStep s t) {q : ApprovalRequest} (hq : q.Ok s) :
    q.Ok t := by
  cases q with
  | authorizingStart | readingRunbook => exact h.committed _ hq
  | findingApprovers | starting | requesting | creating => exact ⟨h.committed _ hq.1, hq.2⟩
  | authorizing | findingUser => exact h.leaves.readRun hq
  | checkingRoles | deciding => exact ⟨h.leaves.readRun hq.1, hq.2⟩
  | returned => trivial

theorem ApprovalInv.mem_origins (hinv : ApprovalInv s) {r : RunbookRun} (hr : r ∈ s.db.runs) :
    r.id ∈ s.origins.map Prod.fst := by
  obtain ⟨v, -, horigin, -⟩ := hinv.ofVersion r hr
  exact List.mem_map.2 ⟨_, horigin, rfl⟩

/-- The id of a new run is on no run. -/
theorem ApprovalInv.ne_of_fresh (hinv : ApprovalInv s) {id : Bytes}
    (hfresh : id ∉ s.origins.map Prod.fst) {r : RunbookRun} (hr : r ∈ s.db.runs) : r.id ≠ id :=
  fun hid => hfresh (hid ▸ hinv.mem_origins hr)

theorem Leaves.distinct (hinv : ApprovalInv s) (h : Leaves s t) :
    (t.db.runs.map (·.id)).Nodup := by
  cases h with
  | kept _ distinct => exact distinct hinv.distinct
  | @created r v fresh runs =>
      rw [runs, List.map_append, List.map_singleton, List.nodup_append]
      refine ⟨hinv.distinct, by simp, ?_⟩
      rintro a ha b hb rfl
      obtain ⟨r₀, hr₀, rfl⟩ := List.mem_map.1 ha
      exact hinv.ne_of_fresh fresh hr₀ (List.mem_singleton.1 hb)
  | @approved r r' a found awaiting id startedBy requires steps runs =>
      rw [runs, Db.put, map_id_eq]
      · exact hinv.distinct
      · intro r₀
        split
        · next hid => rw [id, (Db.run?_eq_some found).2, hid]
        · rfl

theorem Leaves.origins_nodup (hinv : ApprovalInv s) (h : Leaves s t) :
    (t.origins.map Prod.fst).Nodup := by
  cases h with
  | kept _ _ origins => exact origins ▸ hinv.origins
  | @created r v fresh runs origins =>
      rw [origins, List.map_append, List.map_singleton, List.nodup_append]
      refine ⟨hinv.origins, by simp, ?_⟩
      rintro a ha b hb rfl
      rw [List.mem_singleton.1 hb] at ha
      exact fresh ha
  | approved _ _ _ _ _ _ _ origins => exact origins ▸ hinv.origins

/-- The steps without the fingerprints follow from the frozen steps. -/
theorem authored_of_frozen {steps steps' : List RunbookRunStepRecord}
    (h : steps'.map (·.toFrozenStep) = steps.map (·.toFrozenStep)) :
    steps'.map (·.toFrozenStep.authored) = steps.map (·.toFrozenStep.authored) := by
  have hauthored := congrArg (List.map FrozenStep.authored) h
  rwa [List.map_map, List.map_map] at hauthored

theorem ApprovalStep.ofVersion (hinv : ApprovalInv s) (h : ApprovalStep s t) :
    ∀ r ∈ t.db.runs, ∃ v ∈ t.committed, (r.id, v) ∈ t.origins ∧
      r.steps.map (·.toFrozenStep.authored) = freezeSteps v.steps ∧
        r.requiresApproval = v.requiresApproval := by
  intro r' hr'
  have hold : ∀ r ∈ s.db.runs, r'.id = r.id → r'.requiresApproval = r.requiresApproval →
      r'.steps.map (·.toFrozenStep) = r.steps.map (·.toFrozenStep) →
      ∃ v ∈ t.committed, (r'.id, v) ∈ t.origins ∧
        r'.steps.map (·.toFrozenStep.authored) = freezeSteps v.steps ∧
          r'.requiresApproval = v.requiresApproval := by
    intro r hr hid hrequires hfrozen
    obtain ⟨v, hv, horigin, hauthored, hflag⟩ := hinv.ofVersion r hr
    exact ⟨v, h.committed v hv, hid ▸ h.leaves.origins_subset _ horigin,
      (authored_of_frozen hfrozen).trans hauthored, hrequires.trans hflag⟩
  cases h.leaves with
  | kept runs =>
      obtain ⟨r, hr, hkeeps⟩ := runs r' hr'
      exact hold r hr hkeeps.id hkeeps.requiresApproval hkeeps.frozen
  | @created r v fresh runs origins approvals version authored requires =>
      rw [runs] at hr'
      rcases List.mem_append.1 hr' with hr | hr
      · exact hold r' hr rfl rfl rfl
      · rw [List.mem_singleton.1 hr]
        exact ⟨v, h.committed v version,
          origins ▸ List.mem_append_right _ (List.mem_singleton_self _), authored, requires⟩
  | @approved r r₁ a found awaiting id startedBy requires steps runs =>
      rw [runs] at hr'
      obtain ⟨x, hx, rfl⟩ := List.mem_map.1 hr'
      by_cases hid : x.id = a.runId
      · rw [if_pos hid] at hold ⊢
        exact hold r (Db.run?_eq_some found).1 id requires (by rw [steps])
      · rw [if_neg hid] at hold ⊢
        exact hold x hx rfl rfl rfl

/-- **A run that asks for approval is untouched** until it is approved. -/
theorem Leaves.untouched (hinv : ApprovalInv s) (h : Leaves s t) :
    ∀ r ∈ t.db.runs, r.requiresApproval = true → (∀ a ∈ t.approvals, a.runId ≠ r.id) →
      Untouched r := by
  intro r' hr' hrequires' hnone
  cases h with
  | kept runs _ _ approvals =>
      obtain ⟨r, hr, hkeeps⟩ := runs r' hr'
      rw [approvals, hkeeps.id] at hnone
      rw [hkeeps.requiresApproval] at hrequires'
      exact hkeeps.untouched (hinv.untouched r hr hrequires' hnone)
  | @created r v fresh runs origins approvals version authored requires pending awaiting =>
      rw [runs] at hr'
      rw [approvals] at hnone
      rcases List.mem_append.1 hr' with hr | hr
      · exact hinv.untouched r' hr hrequires' hnone
      · rw [List.mem_singleton.1 hr] at hrequires' ⊢
        exact ⟨Or.inl (awaiting hrequires'), fun step hstep => Or.inl (pending step hstep)⟩
  | @approved r r₁ a found awaiting id startedBy requires steps runs origins approvals =>
      rw [approvals] at hnone
      rw [runs] at hr'
      obtain ⟨x, hx, rfl⟩ := List.mem_map.1 hr'
      have hother : x.id ≠ a.runId := by
        intro hid
        rw [if_pos hid, id, (Db.run?_eq_some found).2] at hnone
        exact hnone a (List.mem_append_right _ (List.mem_singleton_self _)) rfl
      rw [if_neg hother] at hrequires' hnone ⊢
      exact hinv.untouched x hx hrequires' fun b hb => hnone b (List.mem_append_left _ hb)

/-- An approval of the run, if the starter and the frozen steps are as they were. -/
theorem ApprovedBy.of_frozen {r r' : RunbookRun} {a : Approval} (hid : r'.id = r.id)
    (hby : r'.startedBy = r.startedBy)
    (hfrozen : r'.steps.map (·.toFrozenStep) = r.steps.map (·.toFrozenStep))
    (h : ApprovedBy r a) : ApprovedBy r' a := by
  obtain ⟨hrun, hother, henabled, hheld⟩ := h
  exact ⟨hrun.trans hid.symm, hby ▸ hother, henabled, hfrozen ▸ hheld⟩

/-- **The approvals stay those of the runs as they are.** -/
theorem Leaves.approved_runs (hinv : ApprovalInv s) (h : Leaves s t) :
    ∀ a ∈ t.approvals, a.runId ∈ t.origins.map Prod.fst ∧
      ∀ r ∈ t.db.runs, a.runId = r.id →
        ApprovedBy r a ∧ r.steps.map (·.toFrozenStep) = a.shown := by
  have hfrom : ∀ a : Approval, a.runId ∈ s.origins.map Prod.fst →
      (∀ r ∈ s.db.runs, a.runId = r.id →
        ApprovedBy r a ∧ r.steps.map (·.toFrozenStep) = a.shown) →
      a.runId ∈ t.origins.map Prod.fst ∧ ∀ r ∈ t.db.runs, a.runId = r.id →
        ApprovedBy r a ∧ r.steps.map (·.toFrozenStep) = a.shown := by
    intro a horigin happroved
    refine ⟨h.mem_origins horigin, fun r' hr' hid' => ?_⟩
    rcases h.runs r' hr' with ⟨r, hr, hid, hby, -, hfrozen⟩ | hnew
    · obtain ⟨hby₀, hshown⟩ := happroved r hr (hid'.trans hid)
      exact ⟨hby₀.of_frozen hid hby hfrozen, hfrozen.trans hshown⟩
    · exact absurd (hid' ▸ horigin) hnew
  have hbefore : ∀ a ∈ s.approvals, _ := fun a ha =>
    hfrom a (hinv.approved a ha).1 (hinv.approved a ha).2
  cases h with
  | kept _ _ _ approvals => exact approvals ▸ hbefore
  | created _ _ _ approvals => exact approvals ▸ hbefore
  | @approved r r₁ a found awaiting id startedBy requires steps runs origins approvals by_ shown =>
      rw [approvals]
      refine forall_mem_append_singleton hbefore (hfrom a ?_ ?_)
      · obtain ⟨hmem, hid⟩ := Db.run?_eq_some found
        exact hid ▸ hinv.mem_origins hmem
      · intro r₂ hr₂ hid₂
        obtain ⟨hmem, hid⟩ := Db.run?_eq_some found
        rw [List.inj_on_of_nodup_map hinv.distinct hr₂ hmem (hid₂.symm.trans hid.symm)]
        exact ⟨by_, shown⟩

end Keeping

/-- **The invariant is kept** by the steps that meet the condition. -/
theorem ApprovalInv.next {runbookId : Bytes} {s t : ApprovalSys} {ev : ApprovalEvent}
    (hinv : ApprovalInv s) (h : s.next runbookId ev = some t)
    (hcond : readsOneVersion s ev = true) : ApprovalInv t := by
  have hstep : ApprovalStep s t := ApprovalSys.next_step hinv hcond h
  exact {
    current := hstep.current
    distinct := hstep.leaves.distinct hinv
    origins := hstep.leaves.origins_nodup hinv
    ofVersion := hstep.ofVersion hinv
    untouched := hstep.leaves.untouched hinv
    approved := hstep.leaves.approved_runs hinv
    requests := fun q hq => hstep.request (hstep.requests q hq) }

/-- A state with the invariant is as claimed. -/
theorem ApprovalInv.bounded {s : ApprovalSys} (hinv : ApprovalInv s) : Bounded s where
  oneVersion := hinv.ofVersion
  approved r hr v horigin hrequires := by
    by_cases hnone : ∀ a ∈ s.approvals, a.runId ≠ r.id
    · obtain ⟨v', -, horigin', -, hflag⟩ := hinv.ofVersion r hr
      have hv : (r.id, v') = (r.id, v) :=
        List.inj_on_of_nodup_map hinv.origins horigin' horigin rfl
      rw [(Prod.mk.inj hv).2, hrequires] at hflag
      exact Or.inl (hinv.untouched r hr hflag hnone).2
    · push Not at hnone
      obtain ⟨a, ha, hid⟩ := hnone
      exact Or.inr ⟨a, ha, ((hinv.approved a ha).2 r hr hid).1⟩
  shown r hr a ha hid := ((hinv.approved a ha).2 r hr hid).2

/-- **A refused request stays refused.** -/
theorem Leaves.refused {s t : ApprovalSys} (hinv : ApprovalInv s) (hinv' : ApprovalInv t)
    (h : Leaves s t) {r r' : RunbookRun} (hr : r ∈ s.db.runs) (hrefused : Refused s r)
    (hr' : r' ∈ t.db.runs) (hid : r'.id = r.id) : Refused t r' ∧ Untouched r' := by
  obtain ⟨hrequires, hnone, hclosed⟩ := hrefused
  have hsame : ∀ x ∈ s.db.runs, x.id = r.id → x = r := fun x hx hxid =>
    List.inj_on_of_nodup_map hinv.distinct hx hr hxid
  have hterminal : isTerminalRunbookRunState r.state = true := by
    rcases hclosed with h | h | h <;> rw [h] <;> rfl
  have hrefused' : Refused t r' := by
    cases h with
    | kept runs _ _ approvals =>
        obtain ⟨x, hx, hkeeps⟩ := runs r' hr'
        obtain rfl := hsame x hx (hkeeps.id.symm.trans hid)
        refine ⟨hkeeps.requiresApproval.trans hrequires, ?_, ?_⟩
        · rw [approvals, hid]
          exact hnone
        · rw [hkeeps.terminal hterminal]
          exact hclosed
    | @created r₁ v fresh runs _ approvals =>
        rw [runs] at hr'
        rcases List.mem_append.1 hr' with hr' | hr'
        · obtain rfl := hsame r' hr' hid
          exact ⟨hrequires, approvals ▸ hnone, hclosed⟩
        · rw [List.mem_singleton.1 hr'] at hid
          exact absurd hid.symm (hinv.ne_of_fresh fresh hr)
    | @approved r₁ r₂ a found awaiting id _ _ _ runs _ approvals =>
        obtain ⟨hmem, hrun⟩ := Db.run?_eq_some found
        have hother : a.runId ≠ r.id := by
          intro h
          obtain rfl := hsame r₁ hmem (hrun.trans h)
          rw [awaiting] at hclosed
          rcases hclosed with h | h | h <;> cases h
        rw [runs] at hr'
        obtain ⟨x, hx, rfl⟩ := List.mem_map.1 hr'
        have hx' : x.id ≠ a.runId := by
          intro h
          rw [if_pos h, id, hrun] at hid
          exact hother hid
        rw [if_neg hx'] at hid ⊢
        obtain rfl := hsame x hx hid
        refine ⟨hrequires, ?_, hclosed⟩
        rw [approvals]
        exact forall_mem_append_singleton hnone hother
  exact ⟨hrefused', hinv'.untouched r' hr' hrefused'.1 hrefused'.2.1⟩

/-- **A step that meets the condition** is as claimed. -/
theorem ApprovalInv.boundedStep {runbookId : Bytes} {s t : ApprovalSys} {ev : ApprovalEvent}
    (hinv : ApprovalInv s) (h : s.next runbookId ev = some t)
    (hcond : readsOneVersion s ev = true) : BoundedStep s ev t := by
  have hinv' : ApprovalInv t := hinv.next h hcond
  refine ⟨hinv'.bounded, fun r hr hrefused r' hr' hid => ?_⟩
  exact (ApprovalSys.next_step hinv hcond h).leaves.refused hinv hinv' hr hrefused hr' hid

theorem ApprovalInv.of_init {runbookId : Bytes} {s : ApprovalSys}
    (h : (approvals runbookId).init s) : ApprovalInv s := by
  obtain ⟨hdb, hrequests, hcommitted, horigins, happrovals⟩ := h
  constructor <;> simp [hdb, hrequests, hcommitted, horigins, happrovals]

theorem approvals_run {runbookId : Bytes} {s t : ApprovalSys} {evs : List ApprovalEvent}
    (h : evs.foldlM (ApprovalSys.next runbookId) s = some t) : (approvals runbookId).Run s evs t :=
  .foldlM (fun _ _ _ h => h) h

/-- **No step of a request is executed without approval**, in every run in which each start reads the
flag of the version whose steps it has listed. -/
theorem approval_boundary (runbookId : Bytes) {s : ApprovalSys}
    (hinit : (approvals runbookId).init s) (evs : List ApprovalEvent)
    (hcond : (approvals runbookId).Along s evs fun s ev _ => readsOneVersion s ev = true) :
    (approvals runbookId).Along s evs BoundedStep := by
  intro pre ev post t u hsplit hrun hstep
  have hinv : ApprovalInv t :=
    hcond.invariant (fun _ _ _ hinv hstep hcond => hinv.next hstep hcond) (.of_init hinit) hsplit
      hrun
  exact hinv.boundedStep hstep (hcond pre ev post t u hsplit hrun hstep)

/-- A lifecycle step on the connector. -/
def restartStep (connectorId verb : Bytes) : RunbookStep where
  kind := some .lifecycle
  title := [1]
  connectorId := connectorId
  verb := verb
  entityRef := [1]
  fieldKey := []
  targetValue := []
  attributeName := []
  operator := []
  expectedValue := []
  action := []
  timeoutSeconds := 0

/-- A runbook of one step that asks for approval, and two operators. -/
def oneRequest : ApprovalSys where
  current := ⟨[restartStep [1] [1]], true⟩
  db := ⟨[]⟩
  operators := [([1], [1]), ([2], [1])]
  instanceAdmins := []
  enabledUsers := [[1], [2]]
  requests := []
  committed := [⟨[restartStep [1] [1]], true⟩]
  origins := []
  approvals := []

/-- A call that goes through. -/
def goesThrough : ApprovalChance where
  io := true
  eligible := true
  elevated := true
  title := some [1]
  newId := [7]
  newStepIds := [[8]]
  fingerprint := fun _ => []
  now := 1

/-- One operator asks, and the other approves. -/
def asksAndApproves : List ApprovalEvent :=
  .submitStart [1] false :: List.replicate 6 (.advance 0 goesThrough) ++
    .submitDecision .approve [2] false [7] :: List.replicate 6 (.advance 1 goesThrough)

theorem approval_boundary_sample :
    (asksAndApproves.foldlM (ApprovalSys.next []) oneRequest).map (fun s =>
      (s.db.runs.map (·.state), s.approvals.map (·.userId))) = some ([.running], [[2]]) ∧
    (approvals []).Along oneRequest asksAndApproves BoundedStep := by
  refine ⟨by decide,
    approval_boundary [] ⟨rfl, rfl, rfl, rfl, rfl⟩ asksAndApproves ?_⟩
  refine Machine.along_of_check
    (fun s ev t => (Iff.rfl : _ ↔ ApprovalSys.next [] s ev = some t)) ?_
  decide

/-- The runbook is edited to another step that needs no approval, after a start has listed the steps and
before it reads the flag; the executor then takes the first step of the new run. -/
def editedBetween : List ApprovalEvent :=
  .submitStart [1] false :: List.replicate 2 (.advance 0 goesThrough) ++
    .edit (some [restartStep [1] [2]]) (some false) ::
      List.replicate 2 (.advance 0 goesThrough)

/-- **A step of a version that asks for approval is executed without it.** -/
theorem executed_without_approval :
    ¬(approvals []).Along oneRequest
      (editedBetween ++ [.call (.updateStep [7] [8] .pending { state := some .running }) fun _ => 2])
      BoundedStep := by
  intro h
  have hbounded : Bounded _ := (h.last (approvals_run rfl) rfl).bounded
  have hrun := hbounded.approved _ (List.mem_singleton_self _) ⟨[restartStep [1] [1]], true⟩
    (List.mem_singleton_self _) rfl
  rcases hrun with hrun | ⟨a, ha, -⟩
  · exact absurd (hrun _ (List.mem_singleton_self _)) (by decide)
  · cases ha

end WiseLabz.Runbook
