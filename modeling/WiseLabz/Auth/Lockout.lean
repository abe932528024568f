/-
**How often a second factor can be guessed.**

Wrong passwords and wrong second factors are counted together, and when the count reaches its limit
the account is locked for a while.  Between two locks there are no more than that many guesses, and
a lock begins where the one before has expired, so no stretch of time as long as a lock meets more
than two of these groups.  The password step of a login clears the count as well, before the second
factor is asked for; where it does so while guesses are counted, the groups are of any length.

Main definitions:

* `Auth.Account` — the counter and the lockout of an account, and when its second factor was
  guessed;
* `Auth.login`, `Auth.loginMFA`, `Auth.elevate` — **the requests that guess**;
* `Auth.guessesWithin` — the guesses in a stretch of time;
* `Auth.Counted` — every guess is registered, and none that is counted is cleared by a password.

Main results:

* `Auth.Groups.guess` — a guess in its group, and what follows a lock;
* `Auth.guesses_bounded` — **no more than twice the limit within the length of a lockout**.
-/

import WiseLabz.Lib.Machine
import Mathlib.Algebra.Order.Group.Nat

set_option relaxedAutoImplicit false
set_option autoImplicit false

namespace WiseLabz.Auth

open Lib

/-! ### The counter -/

/-- Instants are in nanoseconds. -/
def second : ℕ := 1000000000

def maxFailedLoginAttempts : ℕ := 5

def loginLockoutDuration : ℕ := 15 * 60 * second

/-- An instant as it is stored, in whole seconds. -/
def wholeSeconds (t : ℕ) : ℕ := t / second * second

/-- A local account with a confirmed second factor. -/
structure Account where
  disabled : Bool
  failedLoginAttempts : ℕ
  lockedUntil : Option ℕ
  /-- When a second factor was verified, the latest last; none was right. -/
  guesses : List ℕ
  /-- How many of the failures that are counted are such guesses. -/
  counted : ℕ
  /-- The last reading of the clock. -/
  clock : ℕ
  deriving DecidableEq, Repr

/-- `userLocked`. -/
def userLocked (a : Account) (now : ℕ) : Bool := a.lockedUntil.any fun t => decide (now < t)

/-- Whether the statements of a request succeed: the one that counts a failure, the one that locks
the account, and the one that clears both. -/
structure Writes where
  count : Bool
  lock : Bool
  clear : Bool
  deriving DecidableEq, Repr

/-- `RegisterFailedLogin`; its error is only logged. -/
def registerFailedLogin (w : Writes) (a : Account) (now : ℕ) : Account :=
  if w.count = false then a
  else if a.failedLoginAttempts + 1 < maxFailedLoginAttempts ∨ w.lock = false then
    { a with failedLoginAttempts := a.failedLoginAttempts + 1 }
  else
    { a with
      failedLoginAttempts := 0
      lockedUntil := some (wholeSeconds (now + loginLockoutDuration))
      counted := 0 }

/-- `ClearFailedLogins`; its error is only logged. -/
def clearFailedLogins (w : Writes) (a : Account) : Account :=
  if w.clear then { a with failedLoginAttempts := 0, lockedUntil := none, counted := 0 } else a

/-- `verifySecondFactor` of a wrong factor, and `registerSecondFactorFailure`. -/
def failSecondFactor (w : Writes) (a : Account) (verify fail : ℕ) : Account :=
  registerFailedLogin w { a with
    guesses := a.guesses ++ [verify]
    counted := if w.count then a.counted + 1 else a.counted } fail

/-! ### The requests -/

inductive Response
  | badRequest
  | unauthorized
  | forbidden
  /-- The password was right, and here is the ticket for the second factor. -/
  | mfaRequired
  deriving DecidableEq, Repr

/-- A request with the answers that do not depend on the counter, whether its statements succeed,
and the readings of the clock: at `userLocked`, when the factor is verified, and in
`RegisterFailedLogin`. -/
inductive Request
  | login (localLoginEnabled fields passwordOk : Bool) (w : Writes) (check fail : ℕ)
  | loginMFA (localLoginEnabled ticketGiven ticketOk : Bool) (w : Writes) (check verify fail : ℕ)
  | elevate (validAction passwordGiven : Bool) (w : Writes) (check verify fail : ℕ)
  deriving DecidableEq, Repr

/-- The readings of the clock, in order. -/
def Request.readings : Request → List ℕ
  | .login _ _ _ _ check fail => [check, fail]
  | .loginMFA _ _ _ _ check verify fail => [check, verify, fail]
  | .elevate _ _ _ check verify fail => [check, verify, fail]

/-- `Login`. -/
def login (a : Account) (localLoginEnabled fields passwordOk : Bool) (w : Writes)
    (check fail : ℕ) : Account × Response :=
  if localLoginEnabled = false then (a, .forbidden)
  else if fields = false then (a, .badRequest)
  else if userLocked a check then (a, .unauthorized)
  else if a.disabled || !passwordOk then
    (if !passwordOk && !a.disabled then registerFailedLogin w a fail else a, .unauthorized)
  else (clearFailedLogins w a, .mfaRequired)

/-- `LoginMFA`, with a factor that is wrong. -/
def loginMFA (a : Account) (localLoginEnabled ticketGiven ticketOk : Bool) (w : Writes)
    (check verify fail : ℕ) : Account × Response :=
  if localLoginEnabled = false then (a, .forbidden)
  else if ticketGiven = false then (a, .badRequest)
  else if ticketOk = false then (a, .unauthorized)
  else if a.disabled then (a, .unauthorized)
  else if userLocked a check then (a, .unauthorized)
  else (failSecondFactor w a verify fail, .unauthorized)

/-- `Elevate`, with a factor that is wrong. -/
def elevate (a : Account) (validAction passwordGiven : Bool) (w : Writes) (check verify fail : ℕ) :
    Account × Response :=
  if validAction = false then (a, .badRequest)
  else if userLocked a check then (a, .unauthorized)
  else if passwordGiven then (a, .badRequest)
  else (failSecondFactor w a verify fail, .unauthorized)

def handle (a : Account) : Request → Account × Response
  | .login localLoginEnabled fields passwordOk w check fail =>
      login a localLoginEnabled fields passwordOk w check fail
  | .loginMFA localLoginEnabled ticketGiven ticketOk w check verify fail =>
      loginMFA a localLoginEnabled ticketGiven ticketOk w check verify fail
  | .elevate validAction passwordGiven w check verify fail =>
      elevate a validAction passwordGiven w check verify fail

/-- **One request**, and the clock after it. -/
def next (a : Account) (r : Request) : Account :=
  { (handle a r).1 with clock := r.readings.getLast?.getD a.clock }

/-- Requests to an account, in whatever state it is. -/
def guessing : Machine Account Request := .ofFun (fun a => a.guesses = [] ∧ a.counted = 0) next

/-! ### Stretches of time -/

/-- The guesses in the half-open stretch from `start`, as long as a lockout. -/
def guessesWithin (start : ℕ) (guesses : List ℕ) : List ℕ :=
  guesses.filter fun t => start ≤ t && t < start + loginLockoutDuration

/-- A login that passes the password step and clears the counter. -/
def passes (a : Account) : Request → Bool
  | .login localLoginEnabled fields passwordOk w check _ =>
      localLoginEnabled && fields && !userLocked a check && !a.disabled && passwordOk && w.clear
  | _ => false

/-- A second factor that is verified, with what becomes of the statements that register its
failure. -/
def verified (a : Account) : Request → Option Writes
  | .login .. => none
  | .loginMFA localLoginEnabled ticketGiven ticketOk w check _ _ =>
      if localLoginEnabled && ticketGiven && ticketOk && !a.disabled && !userLocked a check then some w
      else none
  | .elevate validAction passwordGiven w check _ _ =>
      if validAction && !userLocked a check && !passwordGiven then some w else none

/-- The failure of the factor is registered: it is counted, and locks the account at the limit. -/
def Registered (a : Account) (r : Request) : Prop :=
  ∀ w ∈ verified a r, w.count = true ∧
    (maxFailedLoginAttempts ≤ a.failedLoginAttempts + 1 → w.lock = true)

instance (a : Account) (r : Request) : Decidable (Registered a r) :=
  inferInstanceAs (Decidable (∀ w ∈ verified a r, _))

/-- **The clock does not go back, every failure of a second factor is registered, and no login
clears the counter** while guesses are counted. -/
structure Counted (a : Account) (r : Request) : Prop where
  clock : (a.clock :: r.readings).Pairwise (· ≤ ·)
  registered : Registered a r
  kept : passes a r = true → a.counted = 0

instance (a : Account) (r : Request) : Decidable (Counted a r) :=
  decidable_of_iff ((a.clock :: r.readings).Pairwise (· ≤ ·) ∧ Registered a r ∧
    (passes a r = true → a.counted = 0))
    ⟨fun h => ⟨h.1, h.2.1, h.2.2⟩, fun h => ⟨h.clock, h.registered, h.kept⟩⟩

/-! ### Groups of guesses -/

theorem lt_wholeSeconds_add (t : ℕ) : t < wholeSeconds t + second := by
  unfold wholeSeconds second
  omega

theorem le_wholeSeconds {u t : ℕ} (hu : second ∣ u) (h : u ≤ t) : u ≤ wholeSeconds t := by
  obtain ⟨k, rfl⟩ := hu
  unfold wholeSeconds second at *
  omega

theorem wholeSeconds_add_lockout (t : ℕ) :
    wholeSeconds (t + loginLockoutDuration) = wholeSeconds t + loginLockoutDuration := by
  unfold wholeSeconds loginLockoutDuration second
  omega

/-- **The guesses fall into groups**, with a lock after each: those since the last lock, those
before it, and those that are too old to share a stretch of time with another guess. -/
structure Groups (a : Account) (older previous recent : List ℕ) (until_ : ℕ) : Prop where
  split : a.guesses = older ++ previous ++ recent
  recentLength : recent.length = a.counted
  counted : a.counted ≤ a.failedLoginAttempts
  short : a.counted < maxFailedLoginAttempts
  previousLength : previous.length ≤ maxFailedLoginAttempts
  whole : older ++ previous ≠ [] → second ∣ until_
  previousBound : ∀ t ∈ previous, t + loginLockoutDuration < until_ + second
  olderBound : ∀ t ∈ older, t + 2 * loginLockoutDuration < until_ + second
  locked : a.lockedUntil = some until_ ∨ until_ ≤ a.clock
  past : ∀ t ∈ a.guesses, t ≤ a.clock
  bound : ∀ start, (guessesWithin start a.guesses).length ≤ 2 * maxFailedLoginAttempts

/-- While the account is not locked, the last lock has expired. -/
theorem Groups.expired {a : Account} {older previous recent : List ℕ} {until_ now : ℕ}
    (h : Groups a older previous recent until_) (hnow : a.clock ≤ now)
    (hlocked : userLocked a now = false) : until_ ≤ now := by
  rcases h.locked with hsome | hle
  · rw [userLocked, hsome, Option.any_some, decide_eq_false_iff_not] at hlocked
    omega
  · omega

theorem guessesWithin_append (start : ℕ) (guesses guesses' : List ℕ) :
    guessesWithin start (guesses ++ guesses') =
      guessesWithin start guesses ++ guessesWithin start guesses' :=
  List.filter_append ..

/-- A guess shares no stretch of time with those before the previous group. -/
theorem Groups.bound_guess {a : Account} {older previous recent : List ℕ} {until_ verify : ℕ}
    (h : Groups a older previous recent until_) (hverify : until_ ≤ verify) (start : ℕ) :
    (guessesWithin start (a.guesses ++ [verify])).length ≤ 2 * maxFailedLoginAttempts := by
  by_cases hin : start ≤ verify ∧ verify < start + loginLockoutDuration
  · have hold : guessesWithin start older = [] := by
      rw [guessesWithin, List.filter_eq_nil_iff]
      intro t ht
      have hbound := h.olderBound t ht
      have hlong : second ≤ loginLockoutDuration := by decide
      simp only [Bool.and_eq_true, decide_eq_true_eq]
      omega
    have hprevious : (guessesWithin start previous).length ≤ previous.length :=
      List.length_filter_le ..
    have hrecent : (guessesWithin start recent).length ≤ recent.length :=
      List.length_filter_le ..
    have hone : (guessesWithin start [verify]).length ≤ 1 := List.length_filter_le ..
    have hshort := h.short
    have hlength := h.recentLength
    have hmost := h.previousLength
    rw [h.split, guessesWithin_append, guessesWithin_append, guessesWithin_append, hold]
    simp only [List.length_append, List.length_nil]
    omega
  · have hone : guessesWithin start [verify] = [] := by
      rw [guessesWithin, List.filter_eq_nil_iff]
      intro t ht
      rw [List.mem_singleton.1 ht]
      simpa using hin
    rw [guessesWithin_append, hone, List.append_nil]
    exact h.bound start

/-- A lock completes a group. -/
theorem groups_of_lock {a : Account} {older previous recent : List ℕ} {until_ fail : ℕ}
    (hsplit : a.guesses = older ++ previous ++ recent)
    (hrecent : recent.length ≤ maxFailedLoginAttempts)
    (hwhole : older ++ previous ≠ [] → second ∣ until_)
    (hprevious : ∀ t ∈ previous, t + loginLockoutDuration < until_ + second)
    (holder : ∀ t ∈ older, t + 2 * loginLockoutDuration < until_ + second)
    (huntil : until_ ≤ fail) (hpast : ∀ t ∈ a.guesses, t ≤ fail)
    (hbound : ∀ start, (guessesWithin start a.guesses).length ≤ 2 * maxFailedLoginAttempts) :
    Groups { a with
        failedLoginAttempts := 0
        lockedUntil := some (wholeSeconds (fail + loginLockoutDuration))
        counted := 0
        clock := fail }
      (older ++ previous) recent [] (wholeSeconds fail + loginLockoutDuration) := by
  have hfloor := lt_wholeSeconds_add fail
  refine ⟨by rw [List.append_nil]; exact hsplit, rfl, le_refl _, Nat.succ_pos _, hrecent, ?_, ?_, ?_,
    Or.inl (congrArg some (wholeSeconds_add_lockout fail)), hpast, hbound⟩
  · intro _
    exact Nat.dvd_add (Nat.dvd_mul_left ..) (Nat.dvd_mul_left ..)
  · intro t ht
    have hle : t ≤ fail := hpast t (hsplit ▸ List.mem_append_right _ ht)
    omega
  · intro t ht
    have hlater := le_wholeSeconds (hwhole (List.ne_nil_of_mem ht)) huntil
    rcases List.mem_append.1 ht with ht | ht
    · have hold := holder t ht
      omega
    · have hold := hprevious t ht
      omega

/-- **A guess** is the next of its group; if it locks the account, the group is complete. -/
theorem Groups.guess {a : Account} {older previous recent : List ℕ} {until_ verify fail : ℕ}
    (h : Groups a older previous recent until_) (hclock : a.clock ≤ verify)
    (huntil : until_ ≤ verify) (hfail : verify ≤ fail) {w : Writes} (hcount : w.count = true)
    (hlocks : maxFailedLoginAttempts ≤ a.failedLoginAttempts + 1 → w.lock = true) :
    ∃ older' previous' recent' until',
      Groups { failSecondFactor w a verify fail with clock := fail } older' previous' recent'
        until' := by
  have hcounted := h.counted
  have hpast : ∀ t ∈ a.guesses ++ [verify], t ≤ fail := by
    intro t ht
    rcases List.mem_append.1 ht with ht | ht
    · exact (h.past t ht).trans (hclock.trans hfail)
    · rw [List.mem_singleton.1 ht]
      exact hfail
  have hsplit : a.guesses ++ [verify] = older ++ previous ++ (recent ++ [verify]) := by
    rw [h.split, List.append_assoc _ recent]
  have hrecent : (recent ++ [verify]).length = a.counted + 1 := by
    rw [List.length_append, List.length_singleton, h.recentLength]
  by_cases hlock : a.failedLoginAttempts + 1 < maxFailedLoginAttempts
  · refine ⟨older, previous, recent ++ [verify], until_, ?_⟩
    rw [failSecondFactor, registerFailedLogin, if_neg (by rw [hcount]; decide), if_pos (Or.inl hlock),
      if_pos hcount]
    exact ⟨hsplit, hrecent, Nat.succ_le_succ hcounted, by dsimp only; omega, h.previousLength, h.whole,
      h.previousBound, h.olderBound, Or.inr (huntil.trans hfail), hpast, h.bound_guess huntil⟩
  · refine ⟨older ++ previous, recent ++ [verify], [], wholeSeconds fail + loginLockoutDuration, ?_⟩
    have hlocked : ¬ (a.failedLoginAttempts + 1 < maxFailedLoginAttempts ∨ w.lock = false) := by
      rw [hlocks (not_lt.1 hlock)]
      simpa using hlock
    rw [failSecondFactor, registerFailedLogin, if_neg (by rw [hcount]; decide), if_neg hlocked]
    exact groups_of_lock (a := { a with guesses := a.guesses ++ [verify] }) hsplit
      (hrecent ▸ h.short) h.whole h.previousBound h.olderBound (huntil.trans hfail) hpast
      (h.bound_guess huntil)

/-- A wrong password is counted, and may lock the account, unless the store fails. -/
theorem Groups.wrongPassword {a : Account} {older previous recent : List ℕ} {until_ fail : ℕ}
    (h : Groups a older previous recent until_) (hclock : a.clock ≤ fail) (huntil : until_ ≤ fail)
    (w : Writes) :
    ∃ older' previous' recent' until',
      Groups { registerFailedLogin w a fail with clock := fail } older' previous' recent' until' := by
  have hpast : ∀ t ∈ a.guesses, t ≤ fail := fun t ht => (h.past t ht).trans hclock
  rw [registerFailedLogin]
  split
  · exact ⟨older, previous, recent, until_, h.split, h.recentLength, h.counted, h.short,
      h.previousLength, h.whole, h.previousBound, h.olderBound, Or.inr huntil, hpast, h.bound⟩
  · split
    · exact ⟨older, previous, recent, until_, h.split, h.recentLength, Nat.le_succ_of_le h.counted,
        h.short, h.previousLength, h.whole, h.previousBound, h.olderBound, Or.inr huntil, hpast,
        h.bound⟩
    · exact ⟨older ++ previous, recent, [], wholeSeconds fail + loginLockoutDuration,
        groups_of_lock h.split (h.recentLength ▸ h.short.le) h.whole h.previousBound h.olderBound
          huntil hpast h.bound⟩

/-- A right password clears the count where no guess is counted. -/
theorem Groups.rightPassword {a : Account} {older previous recent : List ℕ} {until_ fail : ℕ}
    (h : Groups a older previous recent until_) (hclock : a.clock ≤ fail) (huntil : until_ ≤ fail)
    {w : Writes} (hnone : w.clear = true → a.counted = 0) :
    Groups { clearFailedLogins w a with clock := fail } older previous recent until_ := by
  have hpast : ∀ t ∈ a.guesses, t ≤ fail := fun t ht => (h.past t ht).trans hclock
  rw [clearFailedLogins]
  split
  · next hclear =>
      exact ⟨h.split, h.recentLength.trans (hnone hclear), le_refl _, Nat.zero_lt_succ _,
        h.previousLength, h.whole, h.previousBound, h.olderBound, Or.inr huntil, hpast, h.bound⟩
  · exact ⟨h.split, h.recentLength, h.counted, h.short, h.previousLength, h.whole, h.previousBound,
      h.olderBound, Or.inr huntil, hpast, h.bound⟩

/-- Time passes. -/
theorem Groups.wait {a : Account} {older previous recent : List ℕ} {until_ now : ℕ}
    (h : Groups a older previous recent until_) (hclock : a.clock ≤ now) :
    Groups { a with clock := now } older previous recent until_ :=
  ⟨h.split, h.recentLength, h.counted, h.short, h.previousLength, h.whole, h.previousBound, h.olderBound,
    h.locked.imp_right fun hle => hle.trans hclock, fun t ht => (h.past t ht).trans hclock, h.bound⟩

/-! ### Every run -/

/-- The guesses of the account fall into groups. -/
def Grouped (a : Account) : Prop :=
  ∃ older previous recent until_, Groups a older previous recent until_

theorem Grouped.login {a : Account} (h : Grouped a) {localLoginEnabled fields passwordOk : Bool}
    {w : Writes} {check fail : ℕ} (hclock : a.clock ≤ check) (hfail : check ≤ fail)
    (hkept : passes a (.login localLoginEnabled fields passwordOk w check fail) = true →
      a.counted = 0) :
    Grouped { (Auth.login a localLoginEnabled fields passwordOk w check fail).1 with
      clock := fail } := by
  obtain ⟨older, previous, recent, until_, hgroups⟩ := h
  have hwait : Grouped { a with clock := fail } :=
    ⟨_, _, _, _, hgroups.wait (hclock.trans hfail)⟩
  unfold Auth.login
  split
  · exact hwait
  · split
    · exact hwait
    · split
      · exact hwait
      · next henabled hfields hlocked =>
          rw [Bool.not_eq_true] at hlocked
          have huntil := (hgroups.expired hclock hlocked).trans hfail
          split
          · dsimp only
            split
            · exact hgroups.wrongPassword (hclock.trans hfail) huntil w
            · exact hwait
          · next hok =>
              refine ⟨_, _, _, _, hgroups.rightPassword (hclock.trans hfail) huntil
                fun hclear => hkept ?_⟩
              simp only [passes, hlocked, hclear]
              cases localLoginEnabled <;> cases fields <;> simp_all

theorem Grouped.failSecondFactor {a : Account} (h : Grouped a) {w : Writes} {check verify fail : ℕ}
    (hclock : a.clock ≤ check) (hverify : check ≤ verify) (hfail : verify ≤ fail)
    (hlocked : userLocked a check = false) {r : Request} (hr : verified a r = some w)
    (hregistered : Registered a r) :
    Grouped { Auth.failSecondFactor w a verify fail with clock := fail } := by
  obtain ⟨older, previous, recent, until_, hgroups⟩ := h
  obtain ⟨hcount, hlocks⟩ := hregistered w hr
  exact hgroups.guess (hclock.trans hverify) ((hgroups.expired hclock hlocked).trans hverify) hfail
    hcount hlocks

/-- **Every request that counts leaves the guesses in groups.** -/
theorem Grouped.next {a : Account} (h : Grouped a) {r : Request} (hr : Counted a r) :
    Grouped (Auth.next a r) := by
  obtain ⟨hclock, hregistered, hkept⟩ := hr
  have hwait : ∀ now, a.clock ≤ now → Grouped { a with clock := now } := by
    obtain ⟨older, previous, recent, until_, hgroups⟩ := h
    exact fun now hnow => ⟨_, _, _, _, hgroups.wait hnow⟩
  cases r with
  | login localLoginEnabled fields passwordOk w check fail =>
      simp only [Request.readings, List.pairwise_cons, List.mem_cons, List.not_mem_nil, or_false,
        forall_eq_or_imp, forall_eq] at hclock
      exact h.login hclock.1.1 hclock.2.1 hkept
  | loginMFA localLoginEnabled ticketGiven ticketOk w check verify fail =>
      simp only [Request.readings, List.pairwise_cons, List.mem_cons, List.not_mem_nil, or_false,
        forall_eq_or_imp, forall_eq] at hclock
      obtain ⟨⟨hcheck, -, hlast⟩, ⟨hverify, -⟩, hfail, -⟩ := hclock
      simp only [Auth.next, handle, loginMFA, Request.readings]
      split
      · exact hwait fail hlast
      · split
        · exact hwait fail hlast
        · split
          · exact hwait fail hlast
          · split
            · exact hwait fail hlast
            · split
              · exact hwait fail hlast
              · next henabled hgiven hticket hdisabled hlocked =>
                  rw [Bool.not_eq_true] at hlocked
                  refine h.failSecondFactor hcheck hverify hfail hlocked ?_ hregistered
                  rw [verified, hlocked]
                  simp_all
  | elevate validAction passwordGiven w check verify fail =>
      simp only [Request.readings, List.pairwise_cons, List.mem_cons, List.not_mem_nil, or_false,
        forall_eq_or_imp, forall_eq] at hclock
      obtain ⟨⟨hcheck, -, hlast⟩, ⟨hverify, -⟩, hfail, -⟩ := hclock
      simp only [Auth.next, handle, elevate, Request.readings]
      split
      · exact hwait fail hlast
      · split
        · exact hwait fail hlast
        · next hlocked =>
            rw [Bool.not_eq_true] at hlocked
            split
            · exact hwait fail hlast
            · refine h.failSecondFactor hcheck hverify hfail hlocked ?_ hregistered
              rw [verified, hlocked]
              simp_all

/-- **Second factors cannot be guessed faster**: in every run whose clock does not go back, in which
every wrong factor is registered and no password clears the count of a guess, no stretch of time as
long as a lockout has more than twice as many guesses as lock the account. -/
theorem guesses_bounded {a : Account} (h : (guessing.restrict Counted).Reachable a) (start : ℕ) :
    (guessesWithin start a.guesses).length ≤ 2 * maxFailedLoginAttempts := by
  have hgrouped : Grouped a := by
    refine h.invariant ?_ fun a r b ha hstep => ?_
    · rintro a ⟨hguesses, hcounted⟩
      refine ⟨[], [], [], a.lockedUntil.getD 0, hguesses, hcounted.symm, ?_, ?_, Nat.zero_le _, ?_,
        ?_, ?_, ?_, ?_, ?_⟩
      · rw [hcounted]
        exact Nat.zero_le _
      · rw [hcounted]
        decide
      · exact fun hne => absurd rfl hne
      · exact fun t ht => absurd ht List.not_mem_nil
      · exact fun t ht => absurd ht List.not_mem_nil
      · cases a.lockedUntil with
        | none => exact Or.inr (Nat.zero_le _)
        | some t => exact Or.inl rfl
      · rw [hguesses]
        exact fun t ht => absurd ht List.not_mem_nil
      · intro start
        rw [hguesses]
        exact Nat.zero_le _
    · rw [show b = Auth.next a r from hstep.2]
      exact ha.next hstep.1
  obtain ⟨older, previous, recent, until_, hgroups⟩ := hgrouped
  exact hgroups.bound start

/-! ### Runs on fixed inputs -/

/-- An account that nobody has tried. -/
def freshAccount : Account := ⟨false, 0, none, [], 0, 0⟩

/-- A wrong code, where every statement succeeds. -/
def wrongCode (now : ℕ) : Request :=
  .loginMFA true true true ⟨true, true, true⟩ now (now + 1) (now + 2)

/-- The second factor is tried six times, and the sixth one is refused. -/
theorem guesses_bounded_sample : ∃ a : Account,
    a.guesses.length = 5 ∧ (guessesWithin 0 a.guesses).length ≤ 2 * maxFailedLoginAttempts := by
  have hrun : (((List.range 6).map fun i => wrongCode (10 * i)).foldlM (fun a r =>
      if Counted a r then some (Auth.next a r) else none) freshAccount).map
        (fun a => a.guesses.length) = some 5 := by
    decide
  obtain ⟨a, ha, hlength⟩ := Option.map_eq_some_iff.1 hrun
  refine ⟨a, hlength, guesses_bounded ?_ 0⟩
  refine Machine.Reachable.foldlM ?_ (Machine.Reachable.of_init ⟨rfl, rfl⟩) ha
  intro a r b hb
  split at hb
  · next hcounted => exact ⟨hcounted, (Option.some.inj hb).symm⟩
  · cases hb

/-- Four wrong codes and a login with the right password, again and again: twelve guesses within
little time, and the account is never locked. -/
theorem guesses_unbounded : ∃ a, guessing.Reachable a ∧ a.lockedUntil = none ∧
    (guessesWithin 0 a.guesses).length = 12 := by
  refine ⟨((List.range 3).flatMap fun i =>
    [wrongCode (10 * i), wrongCode (10 * i + 2), wrongCode (10 * i + 4), wrongCode (10 * i + 6),
      .login true true true ⟨true, true, true⟩ (10 * i + 8) (10 * i + 9)]).foldl Auth.next freshAccount,
    Machine.reachable_ofFun ⟨rfl, rfl⟩ _, ?_, ?_⟩ <;> decide

end WiseLabz.Auth
