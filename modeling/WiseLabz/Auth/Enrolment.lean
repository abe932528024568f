/-
**Second factors and recovery codes.**

Deleting a factor lists the confirmed factors first, to tell whether the last one goes: then the
policy may forbid it, and the recovery codes are wiped after it.  Confirming one lists them after,
to tell whether it is the first: then recovery codes are made.  The lists, the deletion and the
codes are separate calls, and the factor that is deleted need not be a confirmed one, so what a list
has told may no longer hold, or never have been about this factor.  That the wipe fails is logged,
and the deletion succeeds all the same.

Main definitions:

* `Auth.MfaFactor`, `Auth.MfaRequest` — a factor, and where a request stands;
* `Auth.nextMfa` — **one store call of a request**;
* `Auth.MfaState.Sound` — what is claimed of a step;
* `Auth.steady` — the condition on a step: what its request has listed, and what has changed since.

Main results:

* `Auth.MfaInv.next` — what the steps that meet the condition keep;
* `Auth.enrolment_sound` — **factors and codes go together** in every run of such steps.
-/

import Mathlib.Data.List.Count
import Mathlib.Data.List.Nodup
import WiseLabz.Lib.Bytes
import WiseLabz.Lib.Machine
import WiseLabz.Lib.Threads

set_option relaxedAutoImplicit false
set_option autoImplicit false

namespace WiseLabz.Auth

open Lib

/-! ### Factors and codes -/

inductive FactorType
  | totp
  | webauthn
  deriving DecidableEq, Repr

structure MfaFactor where
  id : ℕ
  type : FactorType
  confirmed : Bool
  deriving DecidableEq, Repr

def MfaFactor.confirmedTOTP (f : MfaFactor) : Bool := f.type = .totp && f.confirmed

structure RecoveryCode where
  hash : Bytes
  used : Bool
  deriving DecidableEq, Repr

/-- How many confirmed factors a request has listed, and how many had been confirmed, and how many
of the confirmed ones deleted, by then. -/
structure Listing where
  length : ℕ
  confirmations : ℕ
  removals : ℕ
  deriving DecidableEq, Repr

/-- Where a request of the user stands. -/
inductive MfaRequest
  /-- `PostMFATOTPConfirm` has read the pending factor and checked the code. -/
  | confirming (id : ℕ)
  /-- A factor is confirmed; `first` tells whether none was before, and `removals` how many
  confirmed ones had been deleted. -/
  | confirmed (first : Bool) (removals : ℕ)
  /-- `enrollmentResult` has listed one factor. -/
  | replacing (first : Bool) (removals : ℕ)
  /-- `DeleteMFAFactor` has read the factor. -/
  | deleting (id : ℕ)
  /-- It has listed the confirmed factors, and the policy does not forbid to go on. -/
  | deciding (id : ℕ) (listing : Listing)
  /-- It has deleted the factor and wipes the codes next; `last` tells whether the factor was the
  only confirmed one. -/
  | wiping (last : Bool) (listing : Listing)
  | done
  deriving DecidableEq, Repr

def MfaRequest.wipes : MfaRequest → Bool
  | .wiping _ _ => true
  | _ => false

structure MfaState where
  factors : List MfaFactor
  codes : List RecoveryCode
  requests : List MfaRequest
  /-- How many factors were confirmed so far. -/
  confirmations : ℕ
  /-- How many confirmed factors were deleted so far. -/
  removals : ℕ
  deriving DecidableEq, Repr

/-- `ListUserFactors`: the confirmed ones. -/
def MfaState.listed (s : MfaState) : List MfaFactor := s.factors.filter MfaFactor.confirmed

/-- `UserHasMFA`. -/
def MfaState.hasFactor (s : MfaState) : Bool := s.factors.any MfaFactor.confirmed

/-- A request is about to wipe the codes. -/
def MfaState.wipePending (s : MfaState) : Bool := s.requests.any MfaRequest.wipes

/-! ### Requests -/

inductive MfaEvent
  /-- `PostMFATOTP`. -/
  | createPendingTOTP (id : ℕ)
  | beginConfirm (id : ℕ)
  | confirmFactor (i : ℕ)
  | createWebAuthnFactor (id : ℕ)
  | listEnrolled (i : ℕ)
  | replaceEnrolled (i : ℕ) (hashes : List Bytes)
  /-- `PostMFARecoveryCodes`. -/
  | regenerate (hashes : List Bytes)
  | beginDelete (id : ℕ)
  | listDeleting (i : ℕ)
  | deleteFactor (i : ℕ)
  /-- `ReplaceRecoveryCodes` of a deletion, which goes on if it fails. -/
  | wipe (i : ℕ) (ok : Bool)
  /-- `ConsumeRecoveryCode`, at a login. -/
  | consume (hash : Bytes)
  deriving DecidableEq, Repr

/-- `ReplaceRecoveryCodes`. -/
def replaceRecoveryCodes (hashes : List Bytes) : List RecoveryCode :=
  hashes.map fun hash => ⟨hash, false⟩

/-- **One store call**; `covered` tells whether the policy covers the user. -/
def nextMfa (covered : Bool) (s : MfaState) : MfaEvent → Option MfaState
  | .createPendingTOTP id =>
      if s.factors.all fun f => f.id ≠ id then
        some { s with factors := s.factors ++ [⟨id, .totp, false⟩] }
      else none
  | .beginConfirm id =>
      if s.factors.any fun f => f.id = id && f.type = .totp && !f.confirmed then
        some { s with requests := s.requests ++ [.confirming id] }
      else none
  | .confirmFactor i =>
      match s.requests[i]? with
      | some (.confirming id) =>
          -- the factor is gone or confirmed, or another one is: `ErrNotFound`, `ErrConflict`
          if (s.factors.any fun f => f.id = id && !f.confirmed) &&
              !(s.factors.any MfaFactor.confirmedTOTP) then
            some { s with
              factors := s.factors.map fun f => if f.id = id then { f with confirmed := true } else f
              requests := s.requests.set i (.confirmed (!s.hasFactor) s.removals)
              confirmations := s.confirmations + 1 }
          else some { s with requests := s.requests.set i .done }
      | _ => none
  | .createWebAuthnFactor id =>
      if s.factors.all fun f => f.id ≠ id then
        some { s with
          factors := s.factors ++ [⟨id, .webauthn, true⟩]
          requests := s.requests ++ [.confirmed (!s.hasFactor) s.removals]
          confirmations := s.confirmations + 1 }
      else none
  | .listEnrolled i =>
      match s.requests[i]? with
      | some (.confirmed first removals) => some { s with
          requests := s.requests.set i
            (if s.listed.length = 1 then .replacing first removals else .done) }
      | _ => none
  | .replaceEnrolled i hashes =>
      match s.requests[i]? with
      | some (.replacing _ _) => some { s with
          codes := replaceRecoveryCodes hashes
          requests := s.requests.set i .done }
      | _ => none
  | .regenerate hashes => some { s with codes := replaceRecoveryCodes hashes }
  | .beginDelete id =>
      if s.factors.any fun f => f.id = id then
        some { s with requests := s.requests ++ [.deleting id] }
      else none
  | .listDeleting i =>
      match s.requests[i]? with
      | some (.deleting id) =>
          let isLast := decide (s.listed.length ≤ 1)
          -- the policy is read in a call of its own, and does not change
          some { s with
            requests := s.requests.set i
              -- `mfa_required_by_policy`
              (if isLast && covered then .done
                else .deciding id ⟨s.listed.length, s.confirmations, s.removals⟩) }
      | _ => none
  | .deleteFactor i =>
      match s.requests[i]? with
      | some (.deciding id listing) =>
          if s.factors.any fun f => f.id = id then
            let left := s.factors.filter fun f => f.id ≠ id
            let isLast := decide (listing.length ≤ 1)
            some { s with
              factors := left
              requests := s.requests.set i
                (if isLast then .wiping (s.hasFactor && !left.any MfaFactor.confirmed) listing
                  else .done)
              removals :=
                if s.listed.any fun f => f.id = id then s.removals + 1 else s.removals }
          else some { s with requests := s.requests.set i .done }
      | _ => none
  | .wipe i ok =>
      match s.requests[i]? with
      | some (.wiping _ _) => some { s with
          codes := if ok then replaceRecoveryCodes [] else s.codes
          requests := s.requests.set i .done }
      | _ => none
  | .consume hash => some { s with
      codes := s.codes.map fun c => if c.hash = hash && !c.used then { c with used := true } else c }

/-- A user with at most one confirmed TOTP factor, and with codes only beside a confirmed factor,
before the first request. -/
def mfaMachine (covered : Bool) : Machine MfaState MfaEvent where
  init s := (s.factors.map MfaFactor.id).Nodup ∧ s.factors.countP MfaFactor.confirmedTOTP ≤ 1 ∧
    (s.codes ≠ [] → s.hasFactor = true) ∧ s.requests = []
  step s ev t := nextMfa covered s ev = some t

/-! ### What is claimed -/

/-- An unused code of the first state is gone. -/
def Discarded (s t : MfaState) : Prop :=
  ∃ c ∈ s.codes, c.used = false ∧ ∀ c' ∈ t.codes, c'.hash ≠ c.hash

/-- A step that may discard codes: a regeneration, the end of a first enrolment, and what follows
the deletion of the last confirmed factor. -/
def mayDiscard (s : MfaState) : MfaEvent → Prop
  | .regenerate _ => True
  | .replaceEnrolled i _ => ∃ removals, s.requests[i]? = some (.replacing true removals)
  | .wipe i _ => ∃ listing, s.requests[i]? = some (.wiping true listing)
  | _ => False

/-- **What is claimed of a step** from `s` to `t`. -/
structure Sound (covered : Bool) (s : MfaState) (ev : MfaEvent) (t : MfaState) : Prop where
  oneTOTP : t.factors.countP MfaFactor.confirmedTOTP ≤ 1
  policy : covered = true → (∃ i, ev = .deleteFactor i) → s.hasFactor = true → t.hasFactor = true
  codes : (∀ r ∈ t.requests, r = .done) → t.codes ≠ [] → t.hasFactor = true
  discards : Discarded s t → mayDiscard s ev

/-- **The condition on a step**: codes are asked for by a user with a factor; a single factor that a
deletion lists is the one it deletes, and where it lists none there are no codes; between what a
request has read of the factors and what it does about them, they have not changed; and a wipe
succeeds where it matters. -/
def steady (covered : Bool) (s : MfaState) : MfaEvent → Bool
  | .regenerate _ => s.hasFactor
  | .replaceEnrolled i _ =>
      match s.requests[i]? with
      -- none is deleted since the factor was confirmed
      | some (.replacing _ removals) => removals = s.removals
      | _ => true
  | .listDeleting i =>
      match s.requests[i]? with
      | some (.deleting id) => covered ||
          match s.listed with
          | [] => s.codes.isEmpty
          | [f] => f.id = id
          | _ => true
      | _ => true
  | .deleteFactor i =>
      match s.requests[i]? with
      | some (.deciding id listing) =>
          -- the factor is gone; or none is deleted since the list, and none confirmed if the list is
          -- taken to say that this is the last
          (s.factors.all fun f => f.id ≠ id) || listing.removals = s.removals &&
            (2 ≤ listing.length || listing.confirmations = s.confirmations)
      | _ => true
  | .wipe i ok =>
      (ok || s.codes.isEmpty || s.hasFactor) &&
        match s.requests[i]? with
        | some (.wiping _ listing) =>
            listing.length = 1 || listing.confirmations = s.confirmations
        | _ => true
  | _ => true

/-- **What a request may rely on** if the factors have not changed since it read of them. -/
def MfaRequest.Ok (covered : Bool) (s : MfaState) : MfaRequest → Prop
  | .confirmed first removals => removals ≤ s.removals ∧
      (removals = s.removals → 1 ≤ s.listed.length ∧ (first = false → 2 ≤ s.listed.length))
  | .replacing first removals => removals ≤ s.removals ∧
      (removals = s.removals → 1 ≤ s.listed.length ∧ first = true)
  | .deciding id listing =>
      listing.removals ≤ s.removals ∧ listing.confirmations ≤ s.confirmations ∧
      (listing.length ≤ 1 → covered = false) ∧
      (listing.removals = s.removals → listing.length ≤ s.listed.length) ∧
      (listing.removals = s.removals → listing.confirmations = s.confirmations →
        listing.length = 1 → ∃ f, s.listed = [f] ∧ f.id = id) ∧
      (listing.confirmations = s.confirmations → listing.length = 0 → s.listed = [] ∧ s.codes = [])
  | .wiping last listing =>
      listing.confirmations ≤ s.confirmations ∧ listing.length ≤ 1 ∧
      (listing.length = 1 → last = true) ∧
      (listing.confirmations = s.confirmations → listing.length = 0 → s.listed = [] ∧ s.codes = [])
  | _ => True

/-- What holds in every state of such a run. -/
structure MfaInv (covered : Bool) (s : MfaState) : Prop where
  ids : (s.factors.map MfaFactor.id).Nodup
  oneTOTP : s.factors.countP MfaFactor.confirmedTOTP ≤ 1
  codes : s.codes ≠ [] → s.hasFactor = true ∨ s.wipePending = true
  requests : ∀ r ∈ s.requests, r.Ok covered s

/-! ### What a change of one part keeps -/

theorem hasFactor_iff {s : MfaState} : s.hasFactor = true ↔ s.listed ≠ [] := by
  rw [MfaState.hasFactor, MfaState.listed, Ne, List.filter_eq_nil_iff, List.any_eq_true]
  push Not
  rfl

theorem length_listed {s : MfaState} :
    s.listed.length = s.factors.countP MfaFactor.confirmed := List.countP_eq_length_filter.symm

/-- **What the factors and the codes of a later state have to do with those before**, as long as
none is confirmed, or none of the confirmed ones deleted. -/
structure MfaState.Later (s t : MfaState) : Prop where
  confirmations : s.confirmations ≤ t.confirmations
  removals : s.removals ≤ t.removals
  kept : t.removals = s.removals → s.listed.length ≤ t.listed.length
  noneNew : t.confirmations = s.confirmations → t.listed.Sublist s.listed
  codes : t.confirmations = s.confirmations → s.listed = [] → s.codes = [] → t.codes = []

/-- Without codes and factors there are none later, as long as no factor is confirmed. -/
theorem MfaState.Later.none {s t : MfaState} (h : s.Later t) {n : ℕ} (hn : n ≤ s.confirmations)
    (hnt : n = t.confirmations) (hs : n = s.confirmations → s.listed = [] ∧ s.codes = []) :
    t.listed = [] ∧ t.codes = [] := by
  have hsame : t.confirmations = s.confirmations :=
    le_antisymm (hnt ▸ hn) h.confirmations
  obtain ⟨hlisted, hcodes⟩ := hs (hnt.trans hsame)
  exact ⟨List.sublist_nil.1 (hlisted ▸ h.noneNew hsame), h.codes hsame hlisted hcodes⟩

/-- What a request may rely on, it may rely on later. -/
theorem MfaRequest.Ok.later {covered : Bool} {s t : MfaState} {r : MfaRequest}
    (hr : r.Ok covered s) (h : s.Later t) : r.Ok covered t := by
  have hremovals : ∀ {n : ℕ}, n ≤ s.removals → n = t.removals →
      n = s.removals ∧ s.listed.length ≤ t.listed.length := by
    intro n hn hnt
    have hsame : t.removals = s.removals := le_antisymm (hnt ▸ hn) h.removals
    exact ⟨hnt.trans hsame, h.kept hsame⟩
  cases r with
  | confirmed first removals =>
      refine ⟨hr.1.trans h.removals, fun heq => ?_⟩
      obtain ⟨hs, hle⟩ := hremovals hr.1 heq
      exact ⟨(hr.2 hs).1.trans hle, fun hf => ((hr.2 hs).2 hf).trans hle⟩
  | replacing first removals =>
      refine ⟨hr.1.trans h.removals, fun heq => ?_⟩
      obtain ⟨hs, hle⟩ := hremovals hr.1 heq
      exact ⟨(hr.2 hs).1.trans hle, (hr.2 hs).2⟩
  | deciding id listing =>
      obtain ⟨hrem, hconf, hpolicy, hseveral, honly, hnone⟩ := hr
      refine ⟨hrem.trans h.removals, hconf.trans h.confirmations, hpolicy, fun heq => ?_,
        fun heq heq' hone => ?_, fun heq hzero => h.none hconf heq fun hs => hnone hs hzero⟩
      · obtain ⟨hs, hle⟩ := hremovals hrem heq
        exact (hseveral hs).trans hle
      · obtain ⟨hs, hle⟩ := hremovals hrem heq
        have hsame : t.confirmations = s.confirmations :=
          le_antisymm (heq' ▸ hconf) h.confirmations
        rw [(h.noneNew hsame).eq_of_length_le hle]
        exact honly hs (heq'.trans hsame) hone
  | wiping last listing =>
      obtain ⟨hconf, hle, hlast, hnone⟩ := hr
      exact ⟨hconf.trans h.confirmations, hle, hlast,
        fun heq hzero => h.none hconf heq fun hs => hnone hs hzero⟩
  | _ => trivial

namespace MfaInv

variable {covered : Bool} {s : MfaState}

/-- The factors change. -/
theorem withFactors (hI : MfaInv covered s) {factors : List MfaFactor} {confirmations removals : ℕ}
    (hlater : s.Later { s with
      factors := factors, confirmations := confirmations, removals := removals })
    (hids : (factors.map MfaFactor.id).Nodup)
    (htotp : factors.countP MfaFactor.confirmedTOTP ≤ 1)
    (hstays : s.codes ≠ [] → s.hasFactor = true →
      factors.any MfaFactor.confirmed = true ∨ s.wipePending = true) :
    MfaInv covered { s with
      factors := factors, confirmations := confirmations, removals := removals } where
  ids := hids
  oneTOTP := htotp
  codes hc := by
    rcases hI.codes hc with hf | hw
    · exact hstays hc hf
    · exact Or.inr hw
  requests r hr := (hI.requests r hr).later hlater

/-- Codes are replaced, and there are none if there is no factor. -/
theorem withCodes (hI : MfaInv covered s) {codes : List RecoveryCode}
    (hc : codes ≠ [] → s.codes ≠ [] ∨ s.hasFactor = true) :
    MfaInv covered { s with codes := codes } where
  ids := hI.ids
  oneTOTP := hI.oneTOTP
  codes hne := (hc hne).elim hI.codes Or.inl
  requests r hr := by
    refine (hI.requests r hr).later ⟨le_refl _, le_refl _, fun _ => le_refl _,
      fun _ => List.Sublist.refl _, fun _ hlisted hcodes => ?_⟩
    by_contra hne
    exact (hc hne).elim (absurd hcodes) fun hf => hasFactor_iff.1 hf hlisted

/-- The requests do not count for what a request may rely on. -/
theorem ok_of_requests {r : MfaRequest} (hr : r.Ok covered s) (requests : List MfaRequest) :
    r.Ok covered { s with requests := requests } :=
  hr.later ⟨le_refl _, le_refl _, fun _ => le_refl _, fun _ => List.Sublist.refl _, fun _ _ hc => hc⟩

/-- A request that does not wipe next goes on. -/
theorem setRequest (hI : MfaInv covered s) {i : ℕ} {r r' : MfaRequest}
    (hr : s.requests[i]? = some r) (hw : r.wipes = false) (hr' : r'.Ok covered s) :
    MfaInv covered { s with requests := s.requests.set i r' } where
  ids := hI.ids
  oneTOTP := hI.oneTOTP
  codes hc := by
    refine (hI.codes hc).imp_right fun hp => ?_
    obtain ⟨x, hx, hxw⟩ := List.any_eq_true.1 hp
    refine List.any_eq_true.2 ⟨x, mem_set_of_ne hr hx ?_, hxw⟩
    rintro rfl
    rw [hw] at hxw
    cases hxw
  requests := forall_mem_set (fun r hr => ok_of_requests (hI.requests r hr) _) (ok_of_requests hr' _)

theorem addRequest (hI : MfaInv covered s) {r : MfaRequest} (hr : r.Ok covered s) :
    MfaInv covered { s with requests := s.requests ++ [r] } where
  ids := hI.ids
  oneTOTP := hI.oneTOTP
  codes hc := by
    refine (hI.codes hc).imp_right fun hp => ?_
    obtain ⟨x, hx, hxw⟩ := List.any_eq_true.1 hp
    exact List.any_eq_true.2 ⟨x, List.mem_append_left _ hx, hxw⟩
  requests := forall_mem_append_singleton (fun r hr => ok_of_requests (hI.requests r hr) _)
    (ok_of_requests hr _)

/-- A factor with a new identifier is added. -/
theorem addFactor (hI : MfaInv covered s) {f : MfaFactor} (hf : f.confirmedTOTP = false)
    (hnew : ∀ g ∈ s.factors, g.id ≠ f.id) {confirmations : ℕ}
    (hconf : s.confirmations ≤ confirmations)
    (hsame : confirmations = s.confirmations → f.confirmed = false) :
    MfaInv covered { s with
      factors := s.factors ++ [f], confirmations := confirmations } := by
  have hlisted : ({ s with factors := s.factors ++ [f], confirmations } : MfaState).listed =
      s.listed ++ [f].filter MfaFactor.confirmed := List.filter_append ..
  refine hI.withFactors ⟨hconf, le_refl _, fun _ => ?_, fun heq => ?_, fun _ _ hc => hc⟩ ?_ ?_
    fun _ hs => Or.inl ?_
  · rw [hlisted, List.length_append]
    exact Nat.le_add_right ..
  · rw [hlisted, List.filter_cons_of_neg (by simp [hsame heq]), List.filter_nil,
      List.append_nil]
  · rw [List.map_append, List.map_singleton, List.nodup_append]
    refine ⟨hI.ids, List.pairwise_singleton _ _, ?_⟩
    rintro a ha b hb rfl
    obtain ⟨g, hg, rfl⟩ := List.mem_map.1 ha
    exact hnew g hg (List.mem_singleton.1 hb)
  · rw [List.countP_append, List.countP_singleton, hf]
    simpa using hI.oneTOTP
  · rw [List.any_append]
    exact Bool.or_eq_true_iff.2 (Or.inl hs)

end MfaInv

/-- `ConfirmFactor`, of the factor with this identifier. -/
def confirmId (id : ℕ) (f : MfaFactor) : MfaFactor :=
  if f.id = id then { f with confirmed := true } else f

theorem confirmId_id (id : ℕ) (f : MfaFactor) : (confirmId id f).id = f.id := by
  unfold confirmId
  split <;> rfl

theorem confirmed_confirmId {id : ℕ} {f : MfaFactor} (h : f.confirmed = true) :
    (confirmId id f).confirmed = true := by
  unfold confirmId
  split
  · rfl
  · exact h

/-- Where a pending factor is confirmed, there is one more. -/
theorem countP_confirmId {id : ℕ} {factors : List MfaFactor}
    (h : ∃ f ∈ factors, f.id = id ∧ f.confirmed = false) :
    factors.countP MfaFactor.confirmed + 1 ≤
      (factors.map (confirmId id)).countP MfaFactor.confirmed := by
  rw [List.countP_map]
  induction factors with
  | nil =>
      obtain ⟨f, hf, -⟩ := h
      cases hf
  | cons g rest ih =>
      have hmono : rest.countP MfaFactor.confirmed ≤
          rest.countP (MfaFactor.confirmed ∘ confirmId id) :=
        List.countP_mono_left fun f _ hf => confirmed_confirmId hf
      rw [List.countP_cons, List.countP_cons]
      by_cases hg : g.id = id ∧ g.confirmed = false
      · have hnow : (MfaFactor.confirmed ∘ confirmId id) g = true := by
          rw [Function.comp_apply, confirmId, if_pos hg.1]
        rw [hg.2, hnow]
        simpa using hmono
      · have hrest : ∃ f ∈ rest, f.id = id ∧ f.confirmed = false := by
          obtain ⟨f, hf, hid⟩ := h
          rcases List.mem_cons.1 hf with rfl | hf
          · exact absurd hid hg
          · exact ⟨f, hf, hid⟩
        have hone : (if g.confirmed = true then 1 else 0) ≤
            if (MfaFactor.confirmed ∘ confirmId id) g = true then 1 else 0 := by
          cases hc : g.confirmed with
          | false => exact Nat.zero_le _
          | true =>
              rw [Function.comp_apply, confirmed_confirmId hc]
        have := ih hrest
        omega

/-- With two factors confirmed, one is left without another one. -/
theorem one_left {factors : List MfaFactor} (hids : (factors.map MfaFactor.id).Nodup)
    (h : 2 ≤ (factors.filter MfaFactor.confirmed).length) (id : ℕ) :
    (factors.filter fun f => f.id ≠ id).any MfaFactor.confirmed = true := by
  have hlisted : ((factors.filter MfaFactor.confirmed).map MfaFactor.id).Nodup :=
    hids.sublist (List.filter_sublist.map _)
  obtain ⟨f, g, rest, hfg⟩ : ∃ f g rest, factors.filter MfaFactor.confirmed = f :: g :: rest := by
    match hlist : factors.filter MfaFactor.confirmed, h with
    | f :: g :: rest, _ => exact ⟨f, g, rest, rfl⟩
  have hmem : ∀ x ∈ [f, g], x ∈ factors ∧ x.confirmed = true := by
    intro x hx
    refine List.mem_filter.1 (hfg ▸ ?_)
    simp only [List.mem_cons, List.not_mem_nil, or_false] at hx ⊢
    tauto
  have hne : f.id ≠ g.id := by
    rw [hfg] at hlisted
    exact fun heq => (List.nodup_cons.1 hlisted).1 (heq ▸ List.mem_cons_self)
  have hleft : ∀ x ∈ [f, g], x.id ≠ id →
      (factors.filter fun f => f.id ≠ id).any MfaFactor.confirmed = true := fun x hx hid =>
    List.any_eq_true.2 ⟨x, List.mem_filter.2 ⟨(hmem x hx).1, decide_eq_true hid⟩, (hmem x hx).2⟩
  by_cases hf : f.id = id
  · exact hleft g (by simp) (hf ▸ hne.symm)
  · exact hleft f (by simp) hf

namespace MfaInv

variable {covered : Bool} {s : MfaState}

/-- The pending factor with this identifier is confirmed, where no TOTP factor is. -/
theorem confirm (hI : MfaInv covered s) {id : ℕ}
    (hpending : ∃ f ∈ s.factors, f.id = id ∧ f.confirmed = false)
    (hnone : s.factors.any MfaFactor.confirmedTOTP = false) :
    MfaInv covered { s with
      factors := s.factors.map (confirmId id), confirmations := s.confirmations + 1 } := by
  have hmore := countP_confirmId hpending
  refine hI.withFactors ⟨Nat.le_succ _, le_refl _, fun _ => ?_,
    fun heq => absurd heq (Nat.succ_ne_self _), fun _ _ hc => hc⟩ ?_ ?_ fun _ hs => Or.inl ?_
  · rw [length_listed, length_listed]
    exact (Nat.le_succ _).trans hmore
  · rw [List.map_map]
    exact (List.map_congr_left fun f _ => confirmId_id id f) ▸ hI.ids
  · -- only factors with the identifier can become confirmed ones, and there is one at most
    rw [List.countP_map]
    have hle : s.factors.countP (MfaFactor.confirmedTOTP ∘ confirmId id) ≤
        s.factors.countP ((· == id) ∘ MfaFactor.id) := by
      refine List.countP_mono_left fun f hf hc => ?_
      by_cases hfid : f.id = id
      · simpa using hfid
      · rw [Function.comp_apply, confirmId, if_neg hfid] at hc
        exact absurd hc (by simpa using List.any_eq_false.1 hnone f hf)
    refine le_trans hle ?_
    rw [← List.countP_map]
    exact List.nodup_iff_count_le_one.1 hI.ids id
  · obtain ⟨f, hf, hc⟩ := List.any_eq_true.1 hs
    exact List.any_eq_true.2 ⟨_, List.mem_map_of_mem hf, confirmed_confirmId hc⟩

/-- A factor is deleted. -/
theorem delete (hI : MfaInv covered s) (id : ℕ)
    (hstays : s.codes ≠ [] → s.hasFactor = true →
      (s.factors.filter fun f => f.id ≠ id).any MfaFactor.confirmed = true ∨
        s.wipePending = true) :
    MfaInv covered { s with
      factors := s.factors.filter fun f => f.id ≠ id
      removals := if s.listed.any fun f => f.id = id then s.removals + 1 else s.removals } := by
  have hlisted : ∀ removals, ({ s with
      factors := s.factors.filter fun f => f.id ≠ id, removals } : MfaState).listed =
        s.listed.filter fun f => f.id ≠ id := fun _ => List.filter_comm ..
  refine hI.withFactors ⟨le_refl _, ?_, fun heq => ?_, fun _ => ?_, fun _ _ hc => hc⟩ ?_ ?_ hstays
  · dsimp only
    split
    · exact Nat.le_succ _
    · exact le_refl _
  · -- no confirmed factor has the identifier
    have hnone : ¬ (s.listed.any fun f => f.id = id) = true := fun hany => by
      have heq : (if s.listed.any fun f => f.id = id then s.removals + 1 else s.removals) =
        s.removals := heq
      rw [if_pos hany] at heq
      exact Nat.succ_ne_self _ heq
    have hkeep : (s.listed.filter fun f => f.id ≠ id) = s.listed := by
      refine List.filter_eq_self.2 fun f hf => ?_
      have := List.any_eq_false.1 (Bool.not_eq_true _ ▸ hnone) f hf
      simpa using this
    rw [hlisted, hkeep]
  · rw [hlisted]
    exact List.filter_sublist
  · exact hI.ids.sublist (List.filter_sublist.map _)
  · exact le_trans (List.filter_sublist.countP_le) hI.oneTOTP

end MfaInv

/-! ### One step -/

/-- What the condition says of a deletion that deletes. -/
theorem steady_delete {covered : Bool} {s : MfaState} {i id : ℕ} {listing : Listing}
    (hr : s.requests[i]? = some (.deciding id listing))
    (hthere : (s.factors.any fun f => f.id = id) = true)
    (hsteady : steady covered s (.deleteFactor i) = true) :
    listing.removals = s.removals ∧
      (2 ≤ listing.length ∨ listing.confirmations = s.confirmations) := by
  obtain ⟨f, hf, hid⟩ := List.any_eq_true.1 hthere
  simp only [steady, hr, Bool.or_eq_true, Bool.and_eq_true, decide_eq_true_eq] at hsteady
  refine hsteady.resolve_left fun hall => ?_
  exact of_decide_eq_true (List.all_eq_true.1 hall f hf) (of_decide_eq_true hid)

/-- **What a step that meets the condition keeps.** -/
theorem MfaInv.next {covered : Bool} {s t : MfaState} {ev : MfaEvent} (hI : MfaInv covered s)
    (hstep : nextMfa covered s ev = some t) (hsteady : steady covered s ev = true) :
    MfaInv covered t := by
  cases ev with
  | createPendingTOTP id =>
      simp only [nextMfa, Option.ite_none_right_eq_some, Option.some.injEq] at hstep
      obtain ⟨hnew, rfl⟩ := hstep
      exact hI.addFactor rfl (by simpa using hnew) (le_refl _) fun _ => rfl
  | beginConfirm id =>
      simp only [nextMfa, Option.ite_none_right_eq_some, Option.some.injEq] at hstep
      obtain ⟨-, rfl⟩ := hstep
      exact hI.addRequest trivial
  | confirmFactor i =>
      simp only [nextMfa] at hstep
      split at hstep
      · next id hr =>
          split at hstep
          · next hok =>
              obtain rfl := Option.some.inj hstep
              rw [Bool.and_eq_true, Bool.not_eq_true'] at hok
              have hpending : ∃ f ∈ s.factors, f.id = id ∧ f.confirmed = false := by
                obtain ⟨f, hf, hfp⟩ := List.any_eq_true.1 hok.1
                exact ⟨f, hf, by simpa using hfp⟩
              refine (hI.confirm hpending hok.2).setRequest hr rfl ⟨le_refl _, fun _ => ?_⟩
              have hmore := countP_confirmId hpending
              rw [length_listed]
              refine ⟨(Nat.le_add_left ..).trans hmore, fun hfirst => le_trans ?_ hmore⟩
              have hhad := hasFactor_iff.1 (by simpa using hfirst)
              have := List.length_pos_of_ne_nil hhad
              rw [length_listed] at this
              omega
          · obtain rfl := Option.some.inj hstep
            exact hI.setRequest hr rfl trivial
      · cases hstep
  | createWebAuthnFactor id =>
      simp only [nextMfa, Option.ite_none_right_eq_some, Option.some.injEq] at hstep
      obtain ⟨hnew, rfl⟩ := hstep
      have hmore := hI.addFactor (f := ⟨id, .webauthn, true⟩) rfl (by simpa using hnew)
        (Nat.le_succ s.confirmations) fun heq => absurd heq (Nat.succ_ne_self _)
      refine hmore.addRequest ⟨le_refl _, fun _ => ?_⟩
      have hlength : (s.factors ++ [(⟨id, .webauthn, true⟩ : MfaFactor)]).countP
          MfaFactor.confirmed = s.listed.length + 1 := by
        rw [List.countP_append, length_listed]
        rfl
      rw [length_listed, hlength]
      refine ⟨Nat.le_add_left .., fun hfirst => ?_⟩
      have hhad := hasFactor_iff.1 (by simpa using hfirst)
      have := List.length_pos_of_ne_nil hhad
      omega
  | listEnrolled i =>
      simp only [nextMfa] at hstep
      split at hstep
      · next first removals hr =>
          obtain rfl := Option.some.inj hstep
          obtain ⟨hle, hok⟩ := hI.requests _ (List.mem_of_getElem? hr)
          refine hI.setRequest hr rfl ?_
          split
          · next hone =>
              refine ⟨hle, fun heq => ⟨(hok heq).1, ?_⟩⟩
              -- a factor that was not the first one is not listed alone
              by_contra hfirst
              have := (hok heq).2 (Bool.not_eq_true _ ▸ hfirst)
              omega
          · trivial
      · cases hstep
  | replaceEnrolled i hashes =>
      simp only [nextMfa] at hstep
      split at hstep
      · next first removals hr =>
          obtain rfl := Option.some.inj hstep
          obtain ⟨-, hok⟩ := hI.requests _ (List.mem_of_getElem? hr)
          have hsame : removals = s.removals := by simpa [steady, hr] using hsteady
          have hhas : s.hasFactor = true :=
            hasFactor_iff.2 (List.length_pos_iff.1 (hok hsame).1)
          have hcodes : MfaInv covered { s with codes := replaceRecoveryCodes hashes } :=
            hI.withCodes fun _ => Or.inr hhas
          exact hcodes.setRequest hr rfl trivial
      · cases hstep
  | regenerate hashes =>
      obtain rfl := Option.some.inj hstep
      exact hI.withCodes fun _ => Or.inr hsteady
  | beginDelete id =>
      simp only [nextMfa, Option.ite_none_right_eq_some, Option.some.injEq] at hstep
      obtain ⟨-, rfl⟩ := hstep
      exact hI.addRequest trivial
  | listDeleting i =>
      simp only [nextMfa] at hstep
      split at hstep
      · next id hr =>
          obtain rfl := Option.some.inj hstep
          refine hI.setRequest hr rfl ?_
          split
          · trivial
          · next hgo =>
              -- the policy forbids to delete the last one
              have hpolicy : s.listed.length ≤ 1 → covered = false := by
                intro hle
                simpa [hle] using hgo
              simp only [steady, hr, Bool.or_eq_true] at hsteady
              refine ⟨le_refl _, le_refl _, hpolicy, fun _ => le_refl _, fun _ _ hone => ?_,
                fun _ hzero => ?_⟩
              · have hsingle := hsteady.resolve_left (by simp [hpolicy hone.le])
                obtain ⟨f, hf⟩ := List.length_eq_one_iff.1 hone
                rw [hf] at hsingle
                exact ⟨f, hf, of_decide_eq_true hsingle⟩
              · have hempty := hsteady.resolve_left (by simp [hpolicy (hzero.trans_le (Nat.zero_le _))])
                have hnil := List.length_eq_zero_iff.1 hzero
                rw [hnil] at hempty
                exact ⟨hnil, List.isEmpty_iff.1 hempty⟩
      · cases hstep
  | deleteFactor i =>
      simp only [nextMfa] at hstep
      split at hstep
      · next id listing hr =>
          obtain ⟨-, hconf, -, hseveral, honly, hnone⟩ := hI.requests _ (List.mem_of_getElem? hr)
          split at hstep
          · next hthere =>
              obtain rfl := Option.some.inj hstep
              obtain ⟨hsame, hunchanged⟩ := steady_delete hr hthere hsteady
              by_cases hlast : listing.length ≤ 1
              · have hconfirmations := hunchanged.resolve_left (by omega)
                have hwiping : (MfaRequest.wiping (s.hasFactor &&
                    !(s.factors.filter fun f => f.id ≠ id).any MfaFactor.confirmed)
                      listing).Ok covered s := by
                  refine ⟨hconf, hlast, fun hone => ?_, hnone⟩
                  obtain ⟨f, hf, hid⟩ := honly hsame hconfirmations hone
                  rw [Bool.and_eq_true, Bool.not_eq_true', List.any_eq_false]
                  refine ⟨hasFactor_iff.2 (by simp [hf]), fun g hg hgc => ?_⟩
                  obtain ⟨hg, hne⟩ := List.mem_filter.1 hg
                  have hgl : g ∈ s.listed := List.mem_filter.2 ⟨hg, hgc⟩
                  rw [hf, List.mem_singleton] at hgl
                  exact of_decide_eq_true hne (hgl ▸ hid)
                rw [if_pos (decide_eq_true hlast)]
                refine (hI.setRequest hr rfl hwiping).delete id fun _ _ => Or.inr ?_
                exact List.any_eq_true.2 ⟨_, mem_set_self hr, rfl⟩
              · rw [if_neg (by simpa using hlast)]
                have hdone : MfaRequest.done.Ok covered s := trivial
                refine (hI.setRequest hr rfl hdone).delete id fun _ _ => Or.inl ?_
                exact one_left hI.ids (le_trans (by omega) (hseveral hsame)) id
          · obtain rfl := Option.some.inj hstep
            exact hI.setRequest hr rfl trivial
      · cases hstep
  | wipe i ok =>
      simp only [nextMfa] at hstep
      split at hstep
      · next last listing hr =>
          obtain rfl := Option.some.inj hstep
          have hcodes : MfaInv covered { s with
              codes := if ok then replaceRecoveryCodes [] else s.codes } := by
            refine hI.withCodes fun hne => Or.inl ?_
            split at hne
            · exact absurd rfl hne
            · exact hne
          refine ⟨hcodes.ids, hcodes.oneTOTP, fun hne => Or.inl ?_, forall_mem_set
            (fun r hr => MfaInv.ok_of_requests (hcodes.requests r hr) _) trivial⟩
          -- codes are left only by a wipe that fails
          simp only [steady, Bool.and_eq_true, Bool.or_eq_true, List.isEmpty_iff] at hsteady
          rcases hsteady.1 with (rfl | hempty) | hhas
          · exact absurd rfl hne
          · refine absurd ?_ hne
            dsimp only
            rw [hempty]
            exact ite_self _
          · exact hhas
      · cases hstep
  | consume hash =>
      obtain rfl := Option.some.inj hstep
      exact hI.withCodes fun hc => Or.inl fun h => hc (by rw [h]; rfl)

theorem not_wipePending {s : MfaState} (h : ∀ r ∈ s.requests, r = .done) :
    s.wipePending = false := by
  refine List.any_eq_false.2 fun r hr => ?_
  rw [h r hr]
  decide

theorem not_discarded_of_codes {s t : MfaState} (h : t.codes = s.codes) : ¬Discarded s t := by
  rintro ⟨c, hc, -, hgone⟩
  exact hgone c (h ▸ hc) rfl

/-- A code that is used stays in the list. -/
theorem not_discarded_consume {s t : MfaState} {covered : Bool} {hash : Bytes}
    (hstep : nextMfa covered s (.consume hash) = some t) : ¬Discarded s t := by
  obtain rfl := Option.some.inj hstep
  rintro ⟨c, hc, -, hgone⟩
  refine hgone _ (List.mem_map_of_mem hc) ?_
  split <;> rfl

/-- **A step that discards codes may.** -/
theorem MfaInv.mayDiscard {covered : Bool} {s t : MfaState} {ev : MfaEvent} (hI : MfaInv covered s)
    (hstep : nextMfa covered s ev = some t) (hsteady : steady covered s ev = true)
    (hd : Discarded s t) : Auth.mayDiscard s ev := by
  cases ev with
  | regenerate hashes => trivial
  | replaceEnrolled i hashes =>
      simp only [nextMfa] at hstep
      split at hstep
      · next first removals hr =>
          obtain ⟨-, hok⟩ := hI.requests _ (List.mem_of_getElem? hr)
          have hsame : removals = s.removals := by simpa [steady, hr] using hsteady
          exact ⟨removals, (hok hsame).2 ▸ hr⟩
      · cases hstep
  | wipe i ok =>
      simp only [nextMfa] at hstep
      split at hstep
      · next last listing hr =>
          obtain ⟨-, hle, hlast, hnone⟩ := hI.requests _ (List.mem_of_getElem? hr)
          simp only [steady, hr, Bool.and_eq_true, Bool.or_eq_true, decide_eq_true_eq] at hsteady
          by_cases hone : listing.length = 1
          · exact ⟨listing, hlast hone ▸ hr⟩
          · -- it has listed none, and there are no codes to discard
            have hsame := hsteady.2.resolve_left hone
            obtain ⟨c, hc, -⟩ := hd
            rw [(hnone hsame (by omega)).2] at hc
            cases hc
      · cases hstep
  | consume hash => exact absurd hd (not_discarded_consume hstep)
  | _ =>
      -- the other calls do not write the codes
      refine absurd hd (not_discarded_of_codes ?_)
      simp only [nextMfa] at hstep
      repeat' split at hstep
      all_goals cases hstep <;> rfl

/-- **Under the policy a confirmed factor stays.** -/
theorem MfaInv.policy {covered : Bool} {s t : MfaState} {i : ℕ} (hI : MfaInv covered s)
    (hstep : nextMfa covered s (.deleteFactor i) = some t)
    (hsteady : steady covered s (.deleteFactor i) = true) (hcov : covered = true)
    (hf : s.hasFactor = true) : t.hasFactor = true := by
  simp only [nextMfa] at hstep
  split at hstep
  · next id listing hr =>
      obtain ⟨-, -, hpolicy, hseveral, -⟩ := hI.requests _ (List.mem_of_getElem? hr)
      split at hstep
      · next hthere =>
          obtain rfl := Option.some.inj hstep
          have htwo : 2 ≤ listing.length := by
            by_contra hlt
            exact absurd hcov (by simp [hpolicy (by omega)])
          exact one_left hI.ids (htwo.trans (hseveral (steady_delete hr hthere hsteady).1)) id
      · obtain rfl := Option.some.inj hstep
        exact hf
  · cases hstep

theorem MfaInv.sound {covered : Bool} {s t : MfaState} {ev : MfaEvent} (hI : MfaInv covered s)
    (hstep : nextMfa covered s ev = some t) (hsteady : steady covered s ev = true) :
    Sound covered s ev t where
  oneTOTP := (hI.next hstep hsteady).oneTOTP
  policy := by
    rintro hcov ⟨i, rfl⟩ hf
    exact hI.policy hstep hsteady hcov hf
  codes hdone hc := ((hI.next hstep hsteady).codes hc).resolve_right
    (by simp [not_wipePending hdone])
  discards := hI.mayDiscard hstep hsteady

/-! ### Runs -/

theorem MfaInv.of_init {covered : Bool} {s : MfaState} (h : (mfaMachine covered).init s) :
    MfaInv covered s where
  ids := h.1
  oneTOTP := h.2.1
  codes hc := Or.inl (h.2.2.1 hc)
  requests := by simp [h.2.2.2]

theorem mfa_run {covered : Bool} {s t : MfaState} {evs : List MfaEvent}
    (h : evs.foldlM (nextMfa covered) s = some t) : (mfaMachine covered).Run s evs t :=
  .foldlM (fun _ _ _ h => h) h

/-- **Factors and codes go together** in every run whose steps all meet the condition. -/
theorem enrolment_sound (covered : Bool) {s : MfaState} (hinit : (mfaMachine covered).init s)
    (evs : List MfaEvent)
    (h : Machine.Along (mfaMachine covered) s evs fun s ev _ => steady covered s ev = true) :
    Machine.Along (mfaMachine covered) s evs (Sound covered) := by
  intro pre ev post t u hsplit hr hstep
  have hI : MfaInv covered t := h.invariant
    (fun _ _ _ hI hstep hsteady => hI.next hstep hsteady) (.of_init hinit) hsplit hr
  exact hI.sound hstep (h pre ev post t u hsplit hr hstep)

/-- A factor is enrolled, gets codes, and is deleted as the last one. -/
theorem enrolment_sound_sample :
    Machine.Along (mfaMachine false) ⟨[], [], [], 0, 0⟩
      [.createPendingTOTP 1, .beginConfirm 1, .confirmFactor 0, .listEnrolled 0,
        .replaceEnrolled 0 [[1]], .beginDelete 1, .listDeleting 1, .deleteFactor 1, .wipe 1 true]
      (Sound false) := by
  refine enrolment_sound false ⟨by simp, by simp, by simp, rfl⟩ _ ?_
  refine Machine.along_of_check (fun s ev t => (Iff.rfl : _ ↔ nextMfa false s ev = some t)) ?_
  decide

/-- A user with a confirmed factor and a code, and with a pending factor. -/
def onePending : MfaState where
  factors := [⟨1, .webauthn, true⟩, ⟨2, .totp, false⟩]
  codes := [⟨[1], false⟩]
  requests := []
  confirmations := 0
  removals := 0

/-- A user with two confirmed factors. -/
def twoConfirmed : MfaState where
  factors := [⟨1, .webauthn, true⟩, ⟨2, .webauthn, true⟩]
  codes := []
  requests := []
  confirmations := 0
  removals := 0

/-- Two requests that delete one factor each, and list both before. -/
def bothDeleted : List MfaEvent :=
  [.beginDelete 1, .beginDelete 2, .listDeleting 0, .listDeleting 1, .deleteFactor 0]

/-- **Factors and codes do not always go together**: the deletion of a pending factor wipes the
codes; of two deletions at a time neither is told to be the last, also under the policy; codes are
made for a user without a factor; and a wipe that fails leaves them to one. -/
theorem codes_wiped_beside_factor :
    (¬Machine.Along (mfaMachine false) onePending
      ([.beginDelete 2, .listDeleting 0, .deleteFactor 0] ++ [.wipe 0 true]) (Sound false)) ∧
    (¬Machine.Along (mfaMachine true) twoConfirmed (bothDeleted ++ [.deleteFactor 1])
      (Sound true)) ∧
    (¬Machine.Along (mfaMachine false) ⟨[], [], [], 0, 0⟩ ([] ++ [.regenerate [[1]]])
      (Sound false)) ∧
    ¬Machine.Along (mfaMachine false) onePending
      ([.beginDelete 1, .listDeleting 0, .deleteFactor 0] ++ [.wipe 0 false]) (Sound false) := by
  refine ⟨fun h => ?_, fun h => ?_, fun h => ?_, fun h => ?_⟩
  · have hsound := h.last (mfa_run rfl) rfl
    obtain ⟨listing, hd⟩ := hsound.discards ⟨⟨[1], false⟩, by decide, rfl, fun c hc => nomatch hc⟩
    exact absurd (MfaRequest.wiping.inj (Option.some.inj hd)).1 (by decide)
  · have hsound := h.last (mfa_run rfl) rfl
    exact absurd (hsound.policy rfl ⟨1, rfl⟩ rfl) (by decide)
  · have hsound := h.last .nil rfl
    exact absurd (hsound.codes (by simp) (by decide)) (by decide)
  · have hsound := h.last (mfa_run rfl) rfl
    exact absurd (hsound.codes (by decide) (by decide)) (by decide)

end WiseLabz.Auth
