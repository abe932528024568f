/-
**An elevation token is spent once.**

A call validates a token at one reading of the clock, reads the clock a second time, and then, alone,
drops the spent tokens that have expired by that reading, looks its own up and records it.  A token
that was spent is dropped only when it has expired, and then no call can validate it any more; but
one that had validated it before can still come, and finds nothing recorded.

Main definitions:

* `Auth.Token`, `Auth.Call` — a signed token, and where a call of `ConsumeElevation` stands;
* `Auth.Elevations` — the tokens, the calls, and the table of spent tokens;
* `Auth.nextElevation` — **one step of a call**;
* `Auth.Prompt` — no call is on its way with a spent token that is dropped.

Main results:

* `Auth.SpendOk.consume` — what the locked section keeps;
* `Auth.elevation_once` — **a token is spent at most once, by a call that it was issued for**.
-/

import WiseLabz.Lib.Bytes
import WiseLabz.Lib.Machine
import WiseLabz.Lib.Table
import WiseLabz.Lib.Threads

set_option relaxedAutoImplicit false
set_option autoImplicit false

namespace WiseLabz.Auth

open Lib

/-! ### Tokens -/

/-- What an elevation token is for. -/
structure Grant where
  action : Bytes
  userID : Bytes
  sessionID : Bytes
  target : Bytes
  deriving DecidableEq, Repr

inductive Audience
  | elevation
  | other
  deriving DecidableEq, Repr

/-- A token with its claims; `exp` is in whole seconds. -/
structure Token where
  audience : Audience
  jti : ℕ
  exp : ℕ
  grant : Grant
  deriving DecidableEq, Repr

/-- `jwt.NewNumericDate`, of an instant in nanoseconds. -/
def numericDate (t : ℕ) : ℕ := t / 1000000000 * 1000000000

/-! ### Calls -/

/-- Where a call of `ConsumeElevation` stands. -/
inductive CallPc
  | begun
  /-- The token is validated, and the session and the target are compared. -/
  | validated
  /-- The clock is read for the second time. -/
  | waiting (now : ℕ)
  | refused
  | succeeded
  deriving DecidableEq, Repr

structure Call where
  token : Token
  grant : Grant
  pc : CallPc
  deriving DecidableEq, Repr

/-- The calls that have validated their token and not entered the locked section. -/
def Call.onItsWay (c : Call) : Bool :=
  match c.pc with
  | .validated | .waiting _ => true
  | _ => false

structure Elevations where
  /-- The tokens that are signed with the secret. -/
  signed : List Token
  calls : List Call
  /-- `usedElevate`: the spent tokens and when they expire. -/
  used : List (ℕ × ℕ)
  clock : ℕ
  deriving DecidableEq, Repr

/-- `ParseWithClaims` with the checks of `validateElevation`, `ValidateElevation` and
`ConsumeElevation` that follow it. -/
def validates (s : Elevations) (now : ℕ) (c : Call) : Bool :=
  (c.token ∈ s.signed && now < c.token.exp) && c.token.audience = .elevation &&
    c.token.grant.action = c.grant.action && c.token.grant.userID = c.grant.userID &&
    c.token.grant.sessionID = c.grant.sessionID && c.token.grant.target = c.grant.target

/-- The table without the entries that have expired. -/
def prune (used : List (ℕ × ℕ)) (now : ℕ) : List (ℕ × ℕ) := used.filter fun e => !(e.2 < now)

/-- The locked section: the table after it, and whether the token is spent by it. -/
def spend (used : List (ℕ × ℕ)) (now : ℕ) (t : Token) : List (ℕ × ℕ) × Bool :=
  let kept := prune used now
  if (lookup Prod.fst kept t.jti).isSome then (kept, false)
  else (kept ++ [(t.jti, t.exp)], true)

/-! ### Steps -/

inductive ElevationEvent
  /-- `IssueElevationBound`. -/
  | issue (jti now : ℕ) (grant : Grant)
  /-- Another token is signed with the secret. -/
  | sign (t : Token)
  | call (t : Token) (grant : Grant)
  | validate (i now : ℕ)
  | readClock (i now : ℕ)
  | consume (i : ℕ)
  deriving DecidableEq, Repr

/-- **One step**, at a clock that does not go back. -/
def nextElevation (elevationTTL : ℕ) (s : Elevations) : ElevationEvent → Option Elevations
  | .issue jti now grant =>
      if s.clock ≤ now ∧ ∀ t ∈ s.signed, t.audience = .elevation → t.jti ≠ jti then
        some { s with
          signed := s.signed ++ [⟨.elevation, jti, numericDate (now + elevationTTL), grant⟩]
          clock := now }
      else none
  | .sign t => if t.audience = .other then some { s with signed := s.signed ++ [t] } else none
  | .call t grant => some { s with calls := s.calls ++ [⟨t, grant, .begun⟩] }
  | .validate i now =>
      match s.calls[i]? with
      | some c =>
          if c.pc = .begun ∧ s.clock ≤ now then
            some { s with
              calls := s.calls.set i { c with pc := if validates s now c then .validated else .refused }
              clock := now }
          else none
      | none => none
  | .readClock i now =>
      match s.calls[i]? with
      | some c =>
          if c.pc = .validated ∧ s.clock ≤ now then
            some { s with calls := s.calls.set i { c with pc := .waiting now }, clock := now }
          else none
      | none => none
  | .consume i =>
      match s.calls[i]? with
      | some c =>
          match c.pc with
          | .waiting now =>
              let (used, ok) := spend s.used now c.token
              some { s with
                calls := s.calls.set i { c with pc := if ok then .succeeded else .refused }
                used := used }
          | _ => none
      | none => none

/-- Calls and tokens in any order. -/
def elevationMachine (elevationTTL : ℕ) : Machine Elevations ElevationEvent where
  init s := s.signed = [] ∧ s.calls = [] ∧ s.used = []
  step s ev t := nextElevation elevationTTL s ev = some t

/-- No call is on its way with a spent token that the locked section drops. -/
def prompt (s : Elevations) : ElevationEvent → Bool
  | .consume i =>
      match s.calls[i]? with
      | some c =>
          match c.pc with
          | .waiting now => s.calls.all fun c' => !c'.onItsWay ||
              s.used.all fun e => !(e.1 = c'.token.jti) || !(e.2 < now)
          | _ => true
      | none => true
  | _ => true

/-! ### What is spent -/

/-- **What holds of the calls and of the table.** -/
structure SpendOk (s : Elevations) : Prop where
  /-- A `jti` tells an elevation token. -/
  unique : ∀ t ∈ s.signed, ∀ t' ∈ s.signed, t.audience = .elevation → t'.audience = .elevation →
    t.jti = t'.jti → t = t'
  /-- A call is on its way, or has succeeded, only with a token that was issued for it. -/
  issued : ∀ c ∈ s.calls, c.onItsWay = true ∨ c.pc = .succeeded →
    c.token ∈ s.signed ∧ c.token.audience = .elevation ∧ c.token.grant = c.grant
  reading : ∀ c ∈ s.calls, ∀ now, c.pc = .waiting now → now ≤ s.clock
  used : ∀ e ∈ s.used, ∃ c ∈ s.calls, c.pc = .succeeded ∧ e = (c.token.jti, c.token.exp)
  once : Apart (fun c c' => c.pc = .succeeded → c'.pc = .succeeded → c.token.jti ≠ c'.token.jti)
    s.calls
  /-- A token that was spent is in the table, or it has expired and no call is on its way with it. -/
  recorded : ∀ c ∈ s.calls, c.pc = .succeeded → (c.token.jti, c.token.exp) ∈ s.used ∨
    c.token.exp < s.clock ∧ ∀ c' ∈ s.calls, c'.onItsWay = true → c'.token.jti ≠ c.token.jti

theorem grant_of_validates {s : Elevations} {now : ℕ} {c : Call} (h : validates s now c = true) :
    (c.token ∈ s.signed ∧ now < c.token.exp) ∧ c.token.audience = .elevation ∧
      c.token.grant = c.grant := by
  simp only [validates, Bool.and_eq_true, decide_eq_true_eq] at h
  obtain ⟨⟨⟨⟨⟨hsigned, haudience⟩, haction⟩, huser⟩, hsession⟩, htarget⟩ := h
  refine ⟨hsigned, haudience, ?_⟩
  cases hg : c.token.grant
  cases hg' : c.grant
  simp_all

/-! ### The steps -/

/-- A token is signed. -/
theorem SpendOk.sign {s : Elevations} (h : SpendOk s) {t : Token} {now : ℕ} (hnow : s.clock ≤ now)
    (hnew : t.audience = .elevation → ∀ t' ∈ s.signed, t'.audience = .elevation → t'.jti ≠ t.jti) :
    SpendOk { s with signed := s.signed ++ [t], clock := now } where
  unique := by
    intro u hu u' hu' haudience haudience' hjti
    rcases List.mem_append.1 hu with hu | hu
    · rcases List.mem_append.1 hu' with hu' | hu'
      · exact h.unique u hu u' hu' haudience haudience' hjti
      · have heq := List.mem_singleton.1 hu'
        exact absurd (heq ▸ hjti) (hnew (heq ▸ haudience') u hu haudience)
    · obtain rfl := List.mem_singleton.1 hu
      rcases List.mem_append.1 hu' with hu' | hu'
      · exact absurd hjti.symm (hnew haudience u' hu' haudience')
      · exact (List.mem_singleton.1 hu').symm
  issued := fun c hc hpc => by
    obtain ⟨hmem, hrest⟩ := h.issued c hc hpc
    exact ⟨List.mem_append_left _ hmem, hrest⟩
  reading := fun c hc now' hpc => (h.reading c hc now' hpc).trans hnow
  used := h.used
  once := h.once
  recorded := fun c hc hpc =>
    (h.recorded c hc hpc).imp_right fun hgone => ⟨Nat.lt_of_lt_of_le hgone.1 hnow, hgone.2⟩

/-- A call begins. -/
theorem SpendOk.call {s : Elevations} (h : SpendOk s) (t : Token) (grant : Grant) :
    SpendOk { s with calls := s.calls ++ [⟨t, grant, .begun⟩] } where
  unique := h.unique
  issued := forall_mem_append_singleton h.issued fun hpc => by
    rcases hpc with hpc | hpc <;> cases hpc
  reading := forall_mem_append_singleton h.reading fun now hpc => by cases hpc
  used := fun e he => by
    obtain ⟨c, hc, hrest⟩ := h.used e he
    exact ⟨c, List.mem_append_left _ hc, hrest⟩
  once := h.once.append_singleton fun c _ =>
    ⟨(fun hpc => by cases hpc), (fun _ hpc => by cases hpc)⟩
  recorded := by
    refine forall_mem_append_singleton (fun c hc hpc => ?_) fun hpc => by cases hpc
    refine (h.recorded c hc hpc).imp_right fun hgone => ⟨hgone.1, ?_⟩
    exact forall_mem_append_singleton hgone.2 fun hpc' => by cases hpc'

/-- A call that has not succeeded goes on, and neither ends nor comes by a spent token. -/
theorem SpendOk.move {s : Elevations} (h : SpendOk s) {i now : ℕ} {c : Call} {pc : CallPc}
    (hi : s.calls[i]? = some c) (hc : c.pc ≠ .succeeded) (hpc : pc ≠ .succeeded)
    (hnow : s.clock ≤ now) (hreading : ∀ now', pc = .waiting now' → now' ≤ now)
    (hvalid : ({ c with pc := pc } : Call).onItsWay = true → c.onItsWay = true ∨
      (c.token ∈ s.signed ∧ now < c.token.exp) ∧ c.token.audience = .elevation ∧
        c.token.grant = c.grant) :
    SpendOk { s with calls := s.calls.set i { c with pc := pc }, clock := now } := by
  have hmem := List.mem_of_getElem? hi
  refine ⟨h.unique, ?_, ?_, ?_, ?_, ?_⟩
  · refine forall_mem_set h.issued fun hway => ?_
    rcases hvalid (hway.resolve_right hpc) with hold | ⟨⟨hsigned, -⟩, hrest⟩
    · exact h.issued c hmem (Or.inl hold)
    · exact ⟨hsigned, hrest⟩
  · exact forall_mem_set (fun c' hc' now' hpc' => (h.reading c' hc' now' hpc').trans hnow) hreading
  · intro e he
    obtain ⟨c', hc', hpc', heq⟩ := h.used e he
    refine ⟨c', mem_set_of_ne hi hc' ?_, hpc', heq⟩
    rintro rfl
    exact hc hpc'
  · exact h.once.set hi fun j c' _ _ => ⟨fun hpc' => absurd hpc' hpc, fun _ hpc' => absurd hpc' hpc⟩
  · refine forall_mem_set (fun c' hc' hpc' => ?_) fun hpc' => absurd hpc' hpc
    refine (h.recorded c' hc' hpc').imp_right fun hgone => ⟨Nat.lt_of_lt_of_le hgone.1 hnow, ?_⟩
    refine forall_mem_set hgone.2 fun hway => ?_
    rcases hvalid hway with hold | ⟨⟨hsigned, hexp⟩, haudience, -⟩
    · exact hgone.2 c hmem hold
    · intro hjti
      obtain ⟨hsigned', haudience', -⟩ := h.issued c' hc' (Or.inr hpc')
      have htoken := h.unique _ hsigned _ hsigned' haudience haudience' hjti
      rw [htoken] at hexp
      have hold := hgone.1
      omega

/-- **The locked section**, where no call is on its way with a token that it drops. -/
theorem SpendOk.consume {s : Elevations} (h : SpendOk s) {i now : ℕ} {c : Call}
    (hi : s.calls[i]? = some c) (hpc : c.pc = .waiting now)
    (hprompt : ∀ c' ∈ s.calls, c'.onItsWay = true → ∀ e ∈ s.used, e.1 = c'.token.jti → now ≤ e.2) :
    SpendOk { s with
      calls := s.calls.set i { c with
        pc := if (spend s.used now c.token).2 then .succeeded else .refused }
      used := (spend s.used now c.token).1 } := by
  have hmem := List.mem_of_getElem? hi
  have hway : c.onItsWay = true := by rw [Call.onItsWay, hpc]
  have hnot : c.pc ≠ .succeeded := by
    rw [hpc]
    exact fun hcontra => by cases hcontra
  have hclock := h.reading c hmem now hpc
  have hkept : ∀ e ∈ prune s.used now, e ∈ s.used := fun e he => List.mem_of_mem_filter he
  -- an entry that is dropped has expired, and no call is on its way with its token
  have hrecorded : ∀ c' ∈ s.calls, c'.pc = .succeeded →
      (c'.token.jti, c'.token.exp) ∈ prune s.used now ∨ c'.token.exp < s.clock ∧
        ∀ c'' ∈ s.calls, c''.onItsWay = true → c''.token.jti ≠ c'.token.jti := by
    intro c' hc' hpc'
    rcases h.recorded c' hc' hpc' with hin | hgone
    · by_cases hexp : c'.token.exp < now
      · refine Or.inr ⟨by omega, fun c'' hc'' hway' hjti => ?_⟩
        have hle := hprompt c'' hc'' hway' _ hin hjti.symm
        dsimp only at hle
        omega
      · exact Or.inl (List.mem_filter.2 ⟨hin, by simpa using hexp⟩)
    · exact Or.inr hgone
  by_cases hspent : (lookup Prod.fst (prune s.used now) c.token.jti).isSome = true
  · have hspend : spend s.used now c.token = (prune s.used now, false) := by
      rw [spend, if_pos hspent]
    rw [hspend]
    refine ⟨h.unique, ?_, ?_, ?_, ?_, ?_⟩
    · exact forall_mem_set h.issued fun hcontra => by
        rcases hcontra with hcontra | hcontra <;> cases hcontra
    · exact forall_mem_set h.reading fun now' hcontra => by cases hcontra
    · intro e he
      obtain ⟨c', hc', hpc', heq⟩ := h.used e (hkept e he)
      refine ⟨c', mem_set_of_ne hi hc' ?_, hpc', heq⟩
      rintro rfl
      exact hnot hpc'
    · exact h.once.set hi fun j c' _ _ =>
        ⟨(fun hcontra => by cases hcontra), (fun _ hcontra => by cases hcontra)⟩
    · refine forall_mem_set (fun c' hc' hpc' => ?_) fun hcontra => by cases hcontra
      refine (hrecorded c' hc' hpc').imp_right fun hgone => ⟨hgone.1, ?_⟩
      exact forall_mem_set hgone.2 fun hcontra => by cases hcontra
  · have hspend : spend s.used now c.token =
        (prune s.used now ++ [(c.token.jti, c.token.exp)], true) := by
      rw [spend, if_neg hspent]
    -- a call that has spent the token before is recorded, or could not leave this one on its way
    have hfirst : ∀ c' ∈ s.calls, c'.pc = .succeeded → c'.token.jti ≠ c.token.jti := by
      intro c' hc' hpc' hjti
      rcases hrecorded c' hc' hpc' with hin | hgone
      · exact hspent (lookup_isSome.2 ⟨_, hin, hjti⟩)
      · exact hgone.2 c hmem hway hjti.symm
    rw [hspend]
    refine ⟨h.unique, ?_, ?_, ?_, ?_, ?_⟩
    · exact forall_mem_set h.issued fun _ => h.issued c hmem (Or.inl hway)
    · exact forall_mem_set h.reading fun now' hcontra => by cases hcontra
    · intro e he
      rcases List.mem_append.1 he with he | he
      · obtain ⟨c', hc', hpc', heq⟩ := h.used e (hkept e he)
        refine ⟨c', mem_set_of_ne hi hc' ?_, hpc', heq⟩
        rintro rfl
        exact hnot hpc'
      · exact ⟨_, mem_set_self hi, rfl, List.mem_singleton.1 he⟩
    · exact h.once.set hi fun j c' _ hj =>
        ⟨fun _ hpc' => (hfirst c' (List.mem_of_getElem? hj) hpc').symm,
          fun hpc' _ => hfirst c' (List.mem_of_getElem? hj) hpc'⟩
    · refine forall_mem_set (fun c' hc' hpc' => ?_) fun _ =>
        Or.inl (List.mem_append_right _ (List.mem_singleton.2 rfl))
      rcases hrecorded c' hc' hpc' with hin | hgone
      · exact Or.inl (List.mem_append_left _ hin)
      · exact Or.inr ⟨hgone.1, forall_mem_set hgone.2 fun hcontra => by cases hcontra⟩

/-! ### Every run -/

/-- **Every step** keeps what holds, if no call is on its way with a token that it drops. -/
theorem SpendOk.next {elevationTTL : ℕ} {s t : Elevations} {ev : ElevationEvent} (h : SpendOk s)
    (hprompt : prompt s ev = true) (hnext : nextElevation elevationTTL s ev = some t) :
    SpendOk t := by
  cases ev with
  | issue jti now grant =>
      simp only [nextElevation] at hnext
      split at hnext
      · next hcond =>
          obtain rfl := Option.some.inj hnext
          exact h.sign hcond.1 fun _ t' ht' haudience' => hcond.2 t' ht' haudience'
      · cases hnext
  | sign t =>
      simp only [nextElevation] at hnext
      split at hnext
      · next hother =>
          obtain rfl := Option.some.inj hnext
          exact h.sign (le_refl _) fun haudience => by
            rw [hother] at haudience
            cases haudience
      · cases hnext
  | call t grant =>
      obtain rfl := Option.some.inj hnext
      exact h.call t grant
  | validate i now =>
      simp only [nextElevation] at hnext
      split at hnext
      · next c hi =>
          split at hnext
          · next hcond =>
              obtain rfl := Option.some.inj hnext
              refine h.move hi (fun hpc => ?_) ?_ hcond.2 (fun now' hpc => ?_) fun hway => Or.inr ?_
              · rw [hcond.1] at hpc
                cases hpc
              · split <;> exact fun hpc => by cases hpc
              · split at hpc <;> cases hpc
              · split at hway
                · next hvalid => exact grant_of_validates hvalid
                · cases hway
          · cases hnext
      · cases hnext
  | readClock i now =>
      simp only [nextElevation] at hnext
      split at hnext
      · next c hi =>
          split at hnext
          · next hcond =>
              obtain rfl := Option.some.inj hnext
              refine h.move hi (fun hpc => ?_) (fun hpc => by cases hpc) hcond.2 (fun now' hpc => ?_)
                fun _ => Or.inl ?_
              · rw [hcond.1] at hpc
                cases hpc
              · exact (CallPc.waiting.inj hpc).ge
              · rw [Call.onItsWay, hcond.1]
          · cases hnext
      · cases hnext
  | consume i =>
      simp only [nextElevation] at hnext
      split at hnext
      · next c hi =>
          split at hnext
          · next now hpc =>
              obtain rfl := Option.some.inj hnext
              refine h.consume hi hpc fun c' hc' hway e he hjti => ?_
              simp only [prompt, hi, hpc, List.all_eq_true] at hprompt
              have hc := hprompt c' hc'
              rw [hway, Bool.not_true, Bool.false_or, List.all_eq_true] at hc
              have he := hc e he
              simp only [hjti, decide_true, Bool.not_true, Bool.false_or, Bool.not_eq_true',
                decide_eq_false_iff_not] at he
              omega
          · cases hnext
      · cases hnext

/-- **A token is spent at most once**, and only by a call that it was issued for: in every run in
which no locked section drops a spent token that a call is on its way with.  What the table has, a
call has spent. -/
theorem elevation_once (elevationTTL : ℕ) {s : Elevations}
    (h : ((elevationMachine elevationTTL).restrict fun s ev => prompt s ev = true).Reachable s) :
    (∀ (i j : ℕ) (c c' : Call), s.calls[i]? = some c → s.calls[j]? = some c' → c.pc = .succeeded →
      c'.pc = .succeeded → c.token.jti = c'.token.jti → i = j) ∧
    (∀ c ∈ s.calls, c.pc = .succeeded →
      c.token ∈ s.signed ∧ c.token.audience = .elevation ∧ c.token.grant = c.grant) ∧
    ∀ e ∈ s.used, ∃ c ∈ s.calls, c.pc = .succeeded ∧ c.token.jti = e.1 := by
  have hok : SpendOk s := by
    refine h.invariant ?_ fun s ev t hs hstep => hs.next hstep.1 hstep.2
    rintro ⟨signed, calls, used, clock⟩ ⟨rfl, rfl, rfl⟩
    refine ⟨?_, ?_, ?_, ?_, apart_nil _, ?_⟩
    · exact fun t ht => absurd ht List.not_mem_nil
    · exact fun c hc => absurd hc List.not_mem_nil
    · exact fun c hc => absurd hc List.not_mem_nil
    · exact fun e he => absurd he List.not_mem_nil
    · exact fun c hc => absurd hc List.not_mem_nil
  refine ⟨?_, fun c hc hpc => hok.issued c hc (Or.inr hpc), ?_⟩
  · intro i j c c' hc hc' hpc hpc' hjti
    by_contra hij
    exact hok.once i j c c' hc hc' hij hpc hpc' hjti
  · intro e he
    obtain ⟨c, hc, hpc, rfl⟩ := hok.used e he
    exact ⟨c, hc, hpc, rfl⟩

/-! ### Runs on fixed inputs -/

def noTokens : Elevations := ⟨[], [], [], 0⟩

/-- What a token of the sample runs is for. -/
def deleteGrant : Grant := ⟨bytes "connector.delete", bytes "u", bytes "s", bytes "c"⟩

/-- The token of the sample runs, that expires after five minutes. -/
def deleteToken : Token := ⟨.elevation, 1, 300000000000, deleteGrant⟩

/-- Two calls with one token, where one has come before the other validates. -/
def promptCalls : List ElevationEvent :=
  [.issue 1 5 deleteGrant, .call deleteToken deleteGrant, .call deleteToken deleteGrant,
    .validate 0 10, .readClock 0 11, .consume 0, .validate 1 20, .readClock 1 21, .consume 1]

/-- The second call validates before the token expires, and reads the clock again after that. -/
def lateCalls : List ElevationEvent :=
  [.issue 1 5 deleteGrant, .call deleteToken deleteGrant, .call deleteToken deleteGrant,
    .validate 0 10, .readClock 0 11, .validate 1 299999999999, .consume 0, .readClock 1 300000000001,
    .consume 1]

theorem elevation_once_sample : ∃ s : Elevations,
    s.calls.map Call.pc = [.succeeded, .refused] ∧
    ∀ (i j : ℕ) (c c' : Call), s.calls[i]? = some c → s.calls[j]? = some c' → c.pc = .succeeded →
      c'.pc = .succeeded → c.token.jti = c'.token.jti → i = j := by
  have hrun : (promptCalls.foldlM (fun s ev =>
      if prompt s ev then nextElevation 300000000000 s ev else none) noTokens).map
        (fun s => s.calls.map Call.pc) = some [.succeeded, .refused] := by
    decide
  obtain ⟨s, hs, hpcs⟩ := Option.map_eq_some_iff.1 hrun
  refine ⟨s, hpcs, (elevation_once 300000000000 ?_).1⟩
  refine Machine.Reachable.foldlM ?_ (Machine.Reachable.of_init ⟨rfl, rfl, rfl⟩) hs
  intro s ev t ht
  split at ht
  · next hprompt => exact ⟨hprompt, ht⟩
  · cases ht

/-- One token, and two calls that both succeed. -/
theorem elevation_twice : ∃ s, (elevationMachine 300000000000).Reachable s ∧
    s.calls = [⟨deleteToken, deleteGrant, .succeeded⟩, ⟨deleteToken, deleteGrant, .succeeded⟩] := by
  have hrun : (lateCalls.foldlM (nextElevation 300000000000) noTokens).map Elevations.calls =
      some [⟨deleteToken, deleteGrant, .succeeded⟩, ⟨deleteToken, deleteGrant, .succeeded⟩] := by
    decide
  obtain ⟨s, hs, hcalls⟩ := Option.map_eq_some_iff.1 hrun
  have hinit : (elevationMachine 300000000000).Reachable noTokens :=
    Machine.Reachable.of_init ⟨rfl, rfl, rfl⟩
  exact ⟨s, hinit.foldlM (fun _ _ _ h => h) hs, hcalls⟩

end WiseLabz.Auth
