/-
**The editing locks of docs.**

A user holds a doc by a row with a time of expiry, which the user renews.  To acquire is to write
the row unless another user's lock stands, and to read back which row stands; a sweep selects the
rows that have expired, deletes the rows that have expired, and announces those it had selected.
The clock is read in seconds, and these steps compare it with the time of expiry in three ways.

Main definitions:

* `DocLock.acquireUpsert`, `DocLock.getDocLock`, `DocLock.releaseDocLock` — the statements;
* `DocLock.next` — **one step of a user, of the sweep or of the clock**;
* `DocLock.Good` — what a step should do;
* `DocLock.orderly` — the steps that the statements are right for.

Main results:

* `DocLock.next_ok` — orderly steps keep the locks, the acquires in progress and the sweep in
  agreement;
* `DocLock.leases_kept` — **orderly runs are good**;
* `DocLock.lease_not_kept` — others need not be.
-/

import WiseLabz.Lib.Bytes
import WiseLabz.Lib.Machine
import WiseLabz.Lib.Table

set_option relaxedAutoImplicit false
set_option autoImplicit false

namespace WiseLabz.DocLock

open Lib

/-! ### The statements -/

/-- A row; the times are in seconds, and their texts are in the order of the times. -/
structure DocLockRecord where
  docID : Bytes
  userID : Bytes
  acquiredAt : ℕ
  expiresAt : ℕ
  deriving DecidableEq

/-- The clock is in nanoseconds. -/
def nsPerSecond : ℕ := 1000000000

def docLockTTL : ℕ := 5 * 60 * nsPerSecond

/-- A time as it is formatted. -/
def second (clock : ℕ) : ℕ := clock / nsPerSecond

/-- The row that an acquire writes. -/
def newLock (clock : ℕ) (docID userID : Bytes) : DocLockRecord :=
  ⟨docID, userID, second clock, second (clock + docLockTTL)⟩

/-- The upsert of `AcquireDocLock`. -/
def acquireUpsert (locks : List DocLockRecord) (clock : ℕ) (docID userID : Bytes) :
    List DocLockRecord :=
  match lookup DocLockRecord.docID locks docID with
  | none => put DocLockRecord.docID locks (newLock clock docID userID)
  | some l =>
      if l.expiresAt < second clock ∨ l.userID = userID then
        put DocLockRecord.docID locks (newLock clock docID userID)
      else locks

/-- `ReleaseDocLock`. -/
def releaseDocLock (locks : List DocLockRecord) (docID userID : Bytes) : List DocLockRecord :=
  locks.filter fun l => ¬ (l.docID = docID ∧ l.userID = userID)

/-- `GetDocLock`; none stands for `ErrNotFound`. -/
def getDocLock (locks : List DocLockRecord) (clock : ℕ) (docID : Bytes) : Option DocLockRecord :=
  (lookup DocLockRecord.docID locks docID).filter fun l => second clock < l.expiresAt

inductive AcquireResult
  | acquired (l : DocLockRecord)
  /-- `ErrLockHeldByOther`, with the lock. -/
  | heldByOther (l : DocLockRecord)
  | notFound
  deriving DecidableEq

/-- What `AcquireDocLock` returns after the read-back. -/
def acquireResult (locks : List DocLockRecord) (clock : ℕ) (docID userID : Bytes) : AcquireResult :=
  match getDocLock locks clock docID with
  | none => .notFound
  | some l => if l.userID ≠ userID then .heldByOther l else .acquired l

/-- An expired lock that is announced; the doc's connector, or empty for all clients. -/
structure ExpiredLock where
  docID : Bytes
  userID : Bytes
  serviceID : Bytes
  deriving DecidableEq

/-! ### Steps -/

/-- An acquire between its two steps, with the row that its upsert found. -/
structure Acquire where
  id : ℕ
  docID : Bytes
  userID : Bytes
  startedAt : ℕ
  found : Option DocLockRecord

/-- The lock of another user that was live at the upsert. -/
def Acquire.blockedBy (p : Acquire) : Option DocLockRecord :=
  p.found.filter fun l => l.userID ≠ p.userID && decide (second p.startedAt < l.expiresAt)

/-- Where the sweep stands: it has selected locks at some second, or has locks left to announce. -/
inductive Sweep
  | selected (now : ℕ) (expired : List ExpiredLock)
  | announcing (pending : List ExpiredLock)

/-- The clock, the table and what is in progress, and what the sweep has deleted and announced. -/
structure State where
  clock : ℕ
  locks : List DocLockRecord
  acquires : List Acquire
  sweep : Sweep
  deleted : List DocLockRecord
  announced : List ExpiredLock

inductive Event
  | tick (d : ℕ)
  | upsert (id : ℕ) (docID userID : Bytes)
  | readBack (id : ℕ)
  | release (docID userID : Bytes)
  | get (docID : Bytes)
  | sweepSelect
  | sweepDelete
  | sweepBroadcast
  /-- A statement of the sweep fails. -/
  | sweepFail
  deriving DecidableEq

section Steps

-- the connector of a doc, or empty
variable (serviceID : Bytes → Bytes)

/-- What the sweep selects of a row. -/
def expiredLock (l : DocLockRecord) : ExpiredLock := ⟨l.docID, l.userID, serviceID l.docID⟩

/-- The rows that have expired at a second. -/
def expiredRows (locks : List DocLockRecord) (now : ℕ) : List DocLockRecord :=
  locks.filter fun l => l.expiresAt ≤ now

/-- **One step**, of a user, of the sweep or of the clock. -/
def next (s : State) : Event → Option State
  | .tick d => some { s with clock := s.clock + d }
  | .upsert id docID userID =>
      if (lookup Acquire.id s.acquires id).isSome then none
      else
        some { s with
          locks := acquireUpsert s.locks s.clock docID userID
          acquires := ⟨id, docID, userID, s.clock, lookup DocLockRecord.docID s.locks docID⟩ ::
            s.acquires }
  | .readBack id =>
      if (lookup Acquire.id s.acquires id).isSome then
        some { s with acquires := s.acquires.filter fun p => p.id ≠ id }
      else none
  | .release docID userID => some { s with locks := releaseDocLock s.locks docID userID }
  | .get _ => some s
  | .sweepSelect =>
      match s.sweep with
      | .announcing [] =>
          let expired := (expiredRows s.locks (second s.clock)).map (expiredLock serviceID)
          some { s with
            sweep := if expired = [] then .announcing [] else .selected (second s.clock) expired }
      | _ => none
  | .sweepDelete =>
      match s.sweep with
      | .selected now expired =>
          some { s with
            locks := s.locks.filter fun l => ¬ l.expiresAt ≤ now
            sweep := .announcing expired
            deleted := s.deleted ++ expiredRows s.locks now }
      | _ => none
  | .sweepBroadcast =>
      match s.sweep with
      | .announcing (x :: pending) =>
          some { s with sweep := .announcing pending, announced := s.announced ++ [x] }
      | _ => none
  | .sweepFail => some { s with sweep := .announcing [] }

/-- Any table with one row for each doc, at any time. -/
def lockMachine : Machine State Event where
  init s := KeyNodup DocLockRecord.docID s.locks ∧ s.acquires = [] ∧ s.sweep = .announcing [] ∧
    s.deleted = [] ∧ s.announced = []
  step s ev t := next serviceID s ev = some t

/-! ### What the steps should do -/

/-- **What a step should do.**

* An upsert leaves the row of a live lock of another user alone.
* An acquire returns that user's lock, or the lock of its own user if there was none.
* The sweep deletes rows that are not live.
* An announced lock is one of those that the sweep has deleted, each of which is announced once at
  most, and its user does not hold the doc. -/
def Good (s : State) (ev : Event) (t : State) : Prop :=
  match ev with
  | .upsert _ docID userID =>
      ∀ l, getDocLock s.locks s.clock docID = some l → l.userID ≠ userID → t.locks = s.locks
  | .readBack id =>
      ∀ p, lookup Acquire.id s.acquires id = some p →
        match p.blockedBy with
        | none => ∃ l, acquireResult s.locks s.clock p.docID p.userID = .acquired l ∧
            l.docID = p.docID ∧ l.userID = p.userID
        | some v => ∃ l, acquireResult s.locks s.clock p.docID p.userID = .heldByOther l ∧
            l.docID = p.docID ∧ l.userID = v.userID
  | .sweepDelete =>
      ∃ rows, t.deleted = s.deleted ++ rows ∧
        ∀ l ∈ rows, l ∈ s.locks ∧ getDocLock s.locks s.clock l.docID = none
  | .sweepBroadcast =>
      t.announced.Sublist (t.deleted.map (expiredLock serviceID)) ∧
        ∀ x, t.announced = s.announced ++ [x] →
          ∀ l, getDocLock s.locks s.clock x.docID = some l → l.userID ≠ x.userID
  | _ => True

end Steps

/-- **The steps that the statements are right for.**

* Time does not pass the expiry of a lock that an acquire is about to read back.
* No user acquires a doc in the second in which another user's lock on it expires, or one that the
  sweep is about to delete, or one of which the sweep is about to announce the user's own lock.
* No user gives up a lock that an acquire is about to read back or that the sweep is about to
  delete. -/
def orderly (s : State) : Event → Bool
  | .tick d => s.acquires.all fun p =>
      (lookup DocLockRecord.docID s.locks p.docID).all fun l =>
        decide (second (s.clock + d) < l.expiresAt)
  | .upsert _ docID userID =>
      ((lookup DocLockRecord.docID s.locks docID).all fun l =>
        decide (l.userID = userID) || decide (l.expiresAt ≠ second s.clock)) &&
      match s.sweep with
      | .selected _ expired => expired.all fun x => decide (x.docID ≠ docID)
      | .announcing pending =>
          pending.all fun x => decide (x.docID ≠ docID) || decide (x.userID ≠ userID)
  | .release docID userID =>
      ((lookup DocLockRecord.docID s.locks docID).all fun l =>
        decide (l.userID ≠ userID) || s.acquires.all fun p => decide (p.docID ≠ docID)) &&
      match s.sweep with
      | .selected _ expired =>
          expired.all fun x => decide (x.docID ≠ docID) || decide (x.userID ≠ userID)
      | .announcing _ => true
  | _ => true

/-! ### What the statements do -/

section Table

variable {locks : List DocLockRecord} {clock : ℕ} {docID userID d : Bytes} {l : DocLockRecord}

theorem getDocLock_eq_some : getDocLock locks clock docID = some l ↔
    lookup DocLockRecord.docID locks docID = some l ∧ second clock < l.expiresAt := by
  rw [getDocLock, Option.filter_eq_some_iff, decide_eq_true_iff]

theorem second_mono {t t' : ℕ} (h : t ≤ t') : second t ≤ second t' := Nat.div_le_div_right h

/-- A lock that is written is live. -/
theorem second_lt_newLock : second clock < (newLock clock docID userID).expiresAt := by
  change clock / nsPerSecond < (clock + docLockTTL) / nsPerSecond
  rw [docLockTTL, Nat.add_mul_div_right _ _ (by decide : 0 < nsPerSecond)]
  omega

/-- An upsert writes the user's lock, or finds another user's lock that has not expired before. -/
theorem acquireUpsert_cases (locks : List DocLockRecord) (clock : ℕ) (docID userID : Bytes) :
    (acquireUpsert locks clock docID userID =
        put DocLockRecord.docID locks (newLock clock docID userID) ∧
      ∀ l, lookup DocLockRecord.docID locks docID = some l →
        l.expiresAt < second clock ∨ l.userID = userID) ∨
    ∃ l, lookup DocLockRecord.docID locks docID = some l ∧ second clock ≤ l.expiresAt ∧
      l.userID ≠ userID ∧ acquireUpsert locks clock docID userID = locks := by
  rw [acquireUpsert]
  cases hl : lookup DocLockRecord.docID locks docID with
  | none => exact .inl ⟨rfl, fun l h => by cases h⟩
  | some l =>
      dsimp only
      split
      · next h =>
          refine .inl ⟨rfl, fun l' hl' => ?_⟩
          obtain rfl := Option.some.inj hl'
          exact h
      · next h =>
          rw [not_or, not_lt] at h
          exact .inr ⟨l, rfl, h.1, h.2, rfl⟩

/-- The rows that have expired stay, where a row that has not is written in the place of no such
row. -/
theorem expiredRows_put {r : DocLockRecord} {now : ℕ} (hr : now < r.expiresAt)
    (h : ∀ l ∈ locks, l.docID = r.docID → now < l.expiresAt) :
    expiredRows (put DocLockRecord.docID locks r) now = expiredRows locks now := by
  have hnot : ¬ r.expiresAt ≤ now := not_le.2 hr
  unfold put expiredRows
  split
  · clear * - h hnot
    induction locks with
    | nil => rfl
    | cons l locks ih =>
        have ih := ih fun l' hl' => h l' (List.mem_cons_of_mem _ hl')
        rw [List.map_cons]
        by_cases hkey : l.docID = r.docID
        · have hl := h l List.mem_cons_self hkey
          rw [if_pos hkey, List.filter_cons_of_neg (by simpa using hnot),
            List.filter_cons_of_neg (by simpa using hl), ih]
        · rw [if_neg hkey, List.filter_cons, List.filter_cons, ih]
  · rw [List.filter_append, List.filter_singleton]
    simp [hnot]

theorem lookup_releaseDocLock (hnodup : KeyNodup DocLockRecord.docID locks) :
    lookup DocLockRecord.docID (releaseDocLock locks docID userID) d =
      (lookup DocLockRecord.docID locks d).filter fun l =>
        ¬ (l.docID = docID ∧ l.userID = userID) :=
  hnodup.lookup_filter _ d

end Table

/-! ### The invariant -/

/-- Whose lock an acquire in progress will read back. -/
def Acquire.holder (p : Acquire) : Bytes := (p.blockedBy.map DocLockRecord.userID).getD p.userID

section Runs

variable {serviceID : Bytes → Bytes}

/-- The sweep agrees with the table: the locks that it has selected are those that have expired, and
those that it is to announce are held by their users no more. -/
def SweepOk (serviceID : Bytes → Bytes) (s : State) : Prop :=
  match s.sweep with
  | .selected now expired =>
      now ≤ second s.clock ∧ (expiredRows s.locks now).map (expiredLock serviceID) = expired ∧
        s.announced.Sublist (s.deleted.map (expiredLock serviceID))
  | .announcing pending =>
      (s.announced ++ pending).Sublist (s.deleted.map (expiredLock serviceID)) ∧
        ∀ x ∈ pending, ∀ l, getDocLock s.locks s.clock x.docID = some l → l.userID ≠ x.userID

theorem sweepOk_selected {s : State} {now : ℕ} {expired : List ExpiredLock}
    (h : s.sweep = .selected now expired) : SweepOk serviceID s ↔
      now ≤ second s.clock ∧ (expiredRows s.locks now).map (expiredLock serviceID) = expired ∧
        s.announced.Sublist (s.deleted.map (expiredLock serviceID)) := by
  rw [SweepOk, h]

theorem sweepOk_announcing {s : State} {pending : List ExpiredLock}
    (h : s.sweep = .announcing pending) : SweepOk serviceID s ↔
      (s.announced ++ pending).Sublist (s.deleted.map (expiredLock serviceID)) ∧
        ∀ x ∈ pending, ∀ l, getDocLock s.locks s.clock x.docID = some l → l.userID ≠ x.userID := by
  rw [SweepOk, h]

structure Ok (serviceID : Bytes → Bytes) (s : State) : Prop where
  nodup : KeyNodup DocLockRecord.docID s.locks
  acquires : ∀ p ∈ s.acquires, ∃ l, getDocLock s.locks s.clock p.docID = some l ∧
    l.userID = p.holder
  sweep : SweepOk serviceID s

theorem getDocLock_mono {locks : List DocLockRecord} {clock clock' : ℕ} (h : clock ≤ clock')
    {docID : Bytes} {l : DocLockRecord} (hl : getDocLock locks clock' docID = some l) :
    getDocLock locks clock docID = some l := by
  obtain ⟨hrow, hlive⟩ := getDocLock_eq_some.1 hl
  exact getDocLock_eq_some.2 ⟨hrow, (second_mono h).trans_lt hlive⟩

/-- Time passes. -/
theorem Ok.tick {s : State} (h : Ok serviceID s) {d : ℕ} (hc : orderly s (.tick d) = true) :
    Ok serviceID { s with clock := s.clock + d } := by
  have hle : s.clock ≤ s.clock + d := Nat.le_add_right _ _
  refine ⟨h.nodup, fun p hp => ?_, ?_⟩
  · obtain ⟨l, hl, hholder⟩ := h.acquires p hp
    have hrow := (getDocLock_eq_some.1 hl).1
    have hlive := List.all_eq_true.1 hc p hp
    rw [hrow, Option.all_some, decide_eq_true_iff] at hlive
    exact ⟨l, getDocLock_eq_some.2 ⟨hrow, hlive⟩, hholder⟩
  · have hsweep := h.sweep
    unfold SweepOk at hsweep ⊢
    dsimp only
    split at hsweep
    · exact ⟨hsweep.1.trans (second_mono hle), hsweep.2⟩
    · exact ⟨hsweep.1, fun x hx l hl => hsweep.2 x hx l (getDocLock_mono hle hl)⟩

theorem getDocLock_put {locks : List DocLockRecord} {clock : ℕ} {docID userID d : Bytes} :
    getDocLock (put DocLockRecord.docID locks (newLock clock docID userID)) clock d =
      if d = docID then some (newLock clock docID userID) else getDocLock locks clock d := by
  have hkey : (newLock clock docID userID).docID = docID := rfl
  rw [getDocLock, lookup_put, hkey]
  split
  · rw [Option.filter_some, if_pos (decide_eq_true second_lt_newLock)]
  · rfl

/-- A user takes or renews a lock. -/
theorem Ok.put {s : State} (h : Ok serviceID s) {id : ℕ} {docID userID : Bytes}
    (hc : orderly s (.upsert id docID userID) = true)
    (hfree : ∀ l, lookup DocLockRecord.docID s.locks docID = some l →
      l.expiresAt < second s.clock ∨ l.userID = userID) :
    Ok serviceID { s with
      locks := put DocLockRecord.docID s.locks (newLock s.clock docID userID)
      acquires := ⟨id, docID, userID, s.clock, lookup DocLockRecord.docID s.locks docID⟩ ::
        s.acquires } := by
  have hcs := (Bool.and_eq_true _ _ ▸ hc : _ ∧ _).2
  refine ⟨h.nodup.put _, fun p hp => ?_, ?_⟩
  · rcases List.mem_cons.1 hp with rfl | hp
    · refine ⟨newLock s.clock docID userID, ?_, ?_⟩
      · dsimp only
        rw [getDocLock_put, if_pos rfl]
      · -- what the upsert found was not live, or the user's own
        have hnone : (Acquire.mk id docID userID s.clock
            (lookup DocLockRecord.docID s.locks docID)).blockedBy = none := by
          refine Option.filter_eq_none_iff.2 fun l hl hblocked => ?_
          simp only [Bool.and_eq_true, decide_eq_true_iff] at hblocked
          rcases hfree l hl with hlt | heq
          · exact absurd hblocked.2 (not_lt.2 hlt.le)
          · exact hblocked.1 heq
        rw [Acquire.holder, hnone]
        rfl
    · obtain ⟨l, hl, hholder⟩ := h.acquires p hp
      dsimp only
      rw [getDocLock_put]
      by_cases hdoc : p.docID = docID
      · rw [if_pos hdoc]
        obtain ⟨hrow, hlive⟩ := getDocLock_eq_some.1 hl
        rcases hfree l (hdoc ▸ hrow) with hlt | heq
        · exact absurd hlive (not_lt.2 hlt.le)
        · exact ⟨_, rfl, heq.symm.trans hholder⟩
      · rw [if_neg hdoc]
        exact ⟨l, hl, hholder⟩
  · have hsweep := h.sweep
    unfold SweepOk at hsweep ⊢
    dsimp only at hcs ⊢
    split at hsweep
    · next now expired heq =>
        obtain ⟨hnow, hrows, hsent⟩ := hsweep
        rw [heq] at hcs
        refine ⟨hnow, ?_, hsent⟩
        rw [expiredRows_put (hnow.trans_lt second_lt_newLock) fun l hl hdoc => ?_]
        · exact hrows
        · by_contra hle
          have hx : expiredLock serviceID l ∈ expired := by
            rw [← hrows]
            exact List.mem_map_of_mem
              (List.mem_filter.2 ⟨hl, decide_eq_true (not_lt.1 hle)⟩)
          exact of_decide_eq_true (List.all_eq_true.1 hcs _ hx) hdoc
    · next pending heq =>
        rw [heq] at hcs
        refine ⟨hsweep.1, fun x hx l hl => ?_⟩
        rw [getDocLock_put] at hl
        by_cases hdoc : x.docID = docID
        · rw [if_pos hdoc] at hl
          obtain rfl := Option.some.inj hl
          have hown := List.all_eq_true.1 hcs x hx
          rw [Bool.or_eq_true, decide_eq_true_iff, decide_eq_true_iff] at hown
          exact fun huser => hown.elim (fun h => h hdoc) fun h => h huser.symm
        · rw [if_neg hdoc] at hl
          exact hsweep.2 x hx l hl

/-- A user finds another user's lock. -/
theorem Ok.blocked {s : State} (h : Ok serviceID s) {id : ℕ} {docID userID : Bytes}
    {l : DocLockRecord} (hl : getDocLock s.locks s.clock docID = some l)
    (huser : l.userID ≠ userID) :
    Ok serviceID { s with
      acquires := ⟨id, docID, userID, s.clock, lookup DocLockRecord.docID s.locks docID⟩ ::
        s.acquires } := by
  refine ⟨h.nodup, fun p hp => ?_, h.sweep⟩
  rcases List.mem_cons.1 hp with rfl | hp
  · obtain ⟨hrow, hlive⟩ := getDocLock_eq_some.1 hl
    refine ⟨l, hl, ?_⟩
    have hblocked : (Acquire.mk id docID userID s.clock
        (lookup DocLockRecord.docID s.locks docID)).blockedBy = some l := by
      refine Option.filter_eq_some_iff.2 ⟨hrow, ?_⟩
      simp only [Bool.and_eq_true, decide_eq_true_iff]
      exact ⟨huser, hlive⟩
    rw [Acquire.holder, hblocked]
    rfl
  · exact h.acquires p hp

/-- A user gives up a lock. -/
theorem Ok.release {s : State} (h : Ok serviceID s) {docID userID : Bytes}
    (hc : orderly s (.release docID userID) = true) :
    Ok serviceID { s with locks := releaseDocLock s.locks docID userID } := by
  obtain ⟨hrow, hsel⟩ := (Bool.and_eq_true _ _ ▸ hc : _ ∧ _)
  have hget : ∀ {d l}, getDocLock (releaseDocLock s.locks docID userID) s.clock d = some l ↔
      getDocLock s.locks s.clock d = some l ∧ ¬ (l.docID = docID ∧ l.userID = userID) := by
    intro d l
    rw [getDocLock_eq_some, getDocLock_eq_some, lookup_releaseDocLock h.nodup,
      Option.filter_eq_some_iff, decide_eq_true_iff]
    exact and_right_comm
  refine ⟨h.nodup.filter _, fun p hp => ?_, ?_⟩
  · obtain ⟨l, hl, hholder⟩ := h.acquires p hp
    refine ⟨l, hget.2 ⟨hl, fun hgone => ?_⟩, hholder⟩
    obtain ⟨hdoc, huser⟩ := hgone
    have hp' : p.docID = docID :=
      (lookup_eq_some (getDocLock_eq_some.1 hl).1).2.symm.trans hdoc
    rw [← hp', (getDocLock_eq_some.1 hl).1, Option.all_some, Bool.or_eq_true,
      decide_eq_true_iff] at hrow
    rcases hrow with hother | hall
    · exact hother huser
    · exact of_decide_eq_true (List.all_eq_true.1 hall p hp) rfl
  · have hsweep := h.sweep
    unfold SweepOk at hsweep ⊢
    dsimp only at hsel ⊢
    split at hsweep
    · next now expired heq =>
        obtain ⟨hnow, hrows, hsent⟩ := hsweep
        rw [heq] at hsel
        refine ⟨hnow, ?_, hsent⟩
        rw [← hrows, expiredRows, expiredRows, releaseDocLock, List.filter_filter]
        congr 1
        refine List.filter_congr fun l hl => ?_
        by_cases hexp : l.expiresAt ≤ now
        · have hx : expiredLock serviceID l ∈ expired := by
            rw [← hrows]
            exact List.mem_map_of_mem (List.mem_filter.2 ⟨hl, decide_eq_true hexp⟩)
          have hkeep := List.all_eq_true.1 hsel _ hx
          rw [Bool.or_eq_true, decide_eq_true_iff, decide_eq_true_iff] at hkeep
          have hnot : ¬ (l.docID = docID ∧ l.userID = userID) := fun hgone =>
            hkeep.elim (fun h => h hgone.1) fun h => h hgone.2
          simp [hexp, hnot]
        · simp [hexp]
    · exact ⟨hsweep.1, fun x hx l hl => hsweep.2 x hx l (hget.1 hl).1⟩

/-- The sweep selects. -/
theorem Ok.select {s : State} (h : Ok serviceID s) (hidle : s.sweep = .announcing []) :
    Ok serviceID { s with
      sweep := if (expiredRows s.locks (second s.clock)).map (expiredLock serviceID) = [] then
          .announcing []
        else .selected (second s.clock)
          ((expiredRows s.locks (second s.clock)).map (expiredLock serviceID)) } := by
  refine ⟨h.nodup, h.acquires, ?_⟩
  have hsent := ((sweepOk_announcing hidle).1 h.sweep).1
  rw [List.append_nil] at hsent
  split
  · refine (sweepOk_announcing rfl).2 ⟨?_, fun x hx => absurd hx List.not_mem_nil⟩
    rwa [List.append_nil]
  · exact (sweepOk_selected rfl).2 ⟨le_rfl, rfl, hsent⟩

/-- The sweep deletes. -/
theorem Ok.delete {s : State} (h : Ok serviceID s) {now : ℕ} {expired : List ExpiredLock}
    (hsel : s.sweep = .selected now expired) :
    Ok serviceID { s with
      locks := s.locks.filter fun l => ¬ l.expiresAt ≤ now
      sweep := .announcing expired
      deleted := s.deleted ++ expiredRows s.locks now } := by
  obtain ⟨hnow, hrows, hsent⟩ := (sweepOk_selected hsel).1 h.sweep
  have hlookup : ∀ d, lookup DocLockRecord.docID (s.locks.filter fun l => ¬ l.expiresAt ≤ now) d =
      (lookup DocLockRecord.docID s.locks d).filter fun l => ¬ l.expiresAt ≤ now :=
    fun d => h.nodup.lookup_filter _ d
  refine ⟨h.nodup.filter _, fun p hp => ?_, ?_, fun x hx l hl => ?_⟩
  · obtain ⟨l, hl, hholder⟩ := h.acquires p hp
    obtain ⟨hrow, hlive⟩ := getDocLock_eq_some.1 hl
    refine ⟨l, getDocLock_eq_some.2 ⟨?_, hlive⟩, hholder⟩
    dsimp only
    rw [hlookup, hrow, Option.filter_some, if_pos]
    exact decide_eq_true (not_le.2 (hnow.trans_lt hlive))
  · dsimp only
    rw [List.map_append, hrows]
    exact hsent.append (List.Sublist.refl _)
  · -- a lock that was selected has no row any more
    rw [← hrows] at hx
    obtain ⟨r, hr, rfl⟩ := List.mem_map.1 hx
    obtain ⟨hmem, hexp⟩ := List.mem_filter.1 hr
    have hrow := (getDocLock_eq_some.1 hl).1
    dsimp only at hrow
    rw [hlookup, Option.filter_eq_some_iff] at hrow
    have hrl : lookup DocLockRecord.docID s.locks (expiredLock serviceID r).docID = some r :=
      h.nodup.lookup_of_mem hmem
    obtain rfl := Option.some.inj (hrl.symm.trans hrow.1)
    exact absurd (of_decide_eq_true hexp) (of_decide_eq_true hrow.2)

/-- The sweep announces a lock. -/
theorem Ok.broadcast {s : State} (h : Ok serviceID s) {x : ExpiredLock}
    {pending : List ExpiredLock} (hs : s.sweep = .announcing (x :: pending)) :
    Ok serviceID { s with sweep := .announcing pending, announced := s.announced ++ [x] } := by
  obtain ⟨hsent, hheld⟩ := (sweepOk_announcing hs).1 h.sweep
  refine ⟨h.nodup, h.acquires, (sweepOk_announcing rfl).2 ⟨?_, fun y hy => ?_⟩⟩
  · rwa [List.append_assoc]
  · exact hheld y (List.mem_cons_of_mem _ hy)

/-- The sweep fails. -/
theorem Ok.fail {s : State} (h : Ok serviceID s) :
    Ok serviceID { s with sweep := .announcing [] } := by
  refine ⟨h.nodup, h.acquires, (sweepOk_announcing rfl).2 ⟨?_, fun x hx => ?_⟩⟩
  · rw [List.append_nil]
    cases hs : s.sweep with
    | selected now expired => exact ((sweepOk_selected hs).1 h.sweep).2.2
    | announcing pending =>
        exact (List.sublist_append_left _ _).trans ((sweepOk_announcing hs).1 h.sweep).1
  · exact absurd hx List.not_mem_nil

/-- **Orderly steps keep the agreement.** -/
theorem next_ok {s t : State} {ev : Event} (h : Ok serviceID s) (hc : orderly s ev = true)
    (hstep : next serviceID s ev = some t) : Ok serviceID t := by
  cases ev with
  | tick d =>
      obtain rfl := Option.some.inj hstep
      exact h.tick hc
  | upsert id docID userID =>
      rw [next] at hstep
      split at hstep
      · cases hstep
      · obtain rfl := Option.some.inj hstep
        rcases acquireUpsert_cases s.locks s.clock docID userID with
          ⟨heq, hfree⟩ | ⟨l, hl, hle, huser, heq⟩
        · rw [heq]
          exact h.put hc hfree
        · rw [heq]
          refine h.blocked (getDocLock_eq_some.2 ⟨hl, lt_of_le_of_ne hle ?_⟩) huser
          have hrow := (Bool.and_eq_true _ _ ▸ hc : _ ∧ _).1
          rw [hl, Option.all_some, Bool.or_eq_true, decide_eq_true_iff,
            decide_eq_true_iff] at hrow
          exact fun heq => hrow.elim huser fun hne => hne heq.symm
  | readBack id =>
      rw [next] at hstep
      split at hstep
      · obtain rfl := Option.some.inj hstep
        exact ⟨h.nodup, fun p hp => h.acquires p (List.mem_of_mem_filter hp), h.sweep⟩
      · cases hstep
  | release docID userID =>
      obtain rfl := Option.some.inj hstep
      exact h.release hc
  | get docID =>
      obtain rfl := Option.some.inj hstep
      exact h
  | sweepSelect =>
      rw [next] at hstep
      split at hstep
      · next hidle =>
          obtain rfl := Option.some.inj hstep
          exact h.select hidle
      · cases hstep
  | sweepDelete =>
      rw [next] at hstep
      split at hstep
      · next hsel =>
          obtain rfl := Option.some.inj hstep
          exact h.delete hsel
      · cases hstep
  | sweepBroadcast =>
      rw [next] at hstep
      split at hstep
      · next hs =>
          obtain rfl := Option.some.inj hstep
          exact h.broadcast hs
      · cases hstep
  | sweepFail =>
      obtain rfl := Option.some.inj hstep
      exact h.fail

/-- An acquire reads back the lock of its holder. -/
theorem good_readBack {s t : State} (h : Ok serviceID s) (id : ℕ) :
    Good serviceID s (.readBack id) t := by
  intro p hp
  obtain ⟨l, hl, hholder⟩ := h.acquires p (lookup_eq_some hp).1
  have hdoc : l.docID = p.docID := (lookup_eq_some (getDocLock_eq_some.1 hl).1).2
  rw [acquireResult, hl]
  dsimp only
  rw [Acquire.holder] at hholder
  cases hblocked : p.blockedBy with
  | none =>
      rw [hblocked] at hholder
      exact ⟨l, if_neg fun hne => hne hholder, hdoc, hholder⟩
  | some v =>
      rw [hblocked] at hholder
      have hv := (Option.filter_eq_some_iff.1 hblocked).2
      simp only [Bool.and_eq_true, decide_eq_true_iff] at hv
      exact ⟨l, if_pos fun heq => hv.1 (hholder.symm.trans heq), hdoc, hholder⟩

/-- **Steps from such a state are good**, if they are orderly. -/
theorem good_of_ok {s t : State} {ev : Event} (h : Ok serviceID s)
    (hstep : next serviceID s ev = some t) : Good serviceID s ev t := by
  cases ev with
  | upsert id docID userID =>
      intro l hl huser
      rw [next] at hstep
      split at hstep
      · cases hstep
      · obtain rfl := Option.some.inj hstep
        obtain ⟨hrow, hlive⟩ := getDocLock_eq_some.1 hl
        rcases acquireUpsert_cases s.locks s.clock docID userID with
          ⟨heq, hfree⟩ | ⟨-, -, -, -, heq⟩
        · exact absurd (hfree l hrow) (not_or.2 ⟨not_lt.2 hlive.le, huser⟩)
        · exact heq
  | readBack id => exact good_readBack h id
  | sweepDelete =>
      rw [next] at hstep
      split at hstep
      · next now expired hsel =>
          obtain rfl := Option.some.inj hstep
          refine ⟨_, rfl, fun l hl => ?_⟩
          obtain ⟨hmem, hexp⟩ := List.mem_filter.1 hl
          have hnow := ((sweepOk_selected hsel).1 h.sweep).1
          refine ⟨hmem, ?_⟩
          rw [getDocLock, h.nodup.lookup_of_mem hmem, Option.filter_some, if_neg]
          rw [decide_eq_true_iff, not_lt]
          exact (of_decide_eq_true hexp).trans hnow
      · cases hstep
  | sweepBroadcast =>
      rw [next] at hstep
      split at hstep
      · next x pending hs =>
          obtain rfl := Option.some.inj hstep
          obtain ⟨hsent, hheld⟩ := (sweepOk_announcing hs).1 h.sweep
          refine ⟨?_, fun y hy => ?_⟩
          · refine List.Sublist.trans ?_ hsent
            exact (List.singleton_sublist.2 List.mem_cons_self).append_left _
          · obtain rfl := List.singleton_inj.1 (List.append_cancel_left hy)
            exact hheld x List.mem_cons_self
      · cases hstep
  | _ => trivial

end Runs

/-- **Orderly runs are good**: the locks are leases, and the sweep announces what it has deleted. -/
theorem leases_kept (serviceID : Bytes → Bytes) {s : State} (evs : List Event)
    (hinit : (lockMachine serviceID).init s)
    (h : (lockMachine serviceID).Along s evs fun s ev _ => orderly s ev = true) :
    (lockMachine serviceID).Along s evs (Good serviceID) := by
  obtain ⟨hnodup, hacquires, hidle, hdeleted, hsent⟩ := hinit
  have hok : Ok serviceID s := by
    refine ⟨hnodup, fun p hp => ?_, (sweepOk_announcing hidle).2 ⟨?_, fun x hx => ?_⟩⟩
    · rw [hacquires] at hp
      exact absurd hp List.not_mem_nil
    · rw [hsent, hdeleted]
      exact List.Sublist.refl _
    · exact absurd hx List.not_mem_nil
  intro pre ev post t u hsplit hrun hstep
  exact good_of_ok (h.invariant (fun t ev u hI ha hC => next_ok hI hC ha) hok hsplit hrun) hstep

/-- An empty table at time zero. -/
def start : State := ⟨0, [], [], .announcing [], [], []⟩

/-- A user takes a lock, renews it and gives it up, another one is told who holds it, and the sweep
announces the lock that the other one lets expire. -/
def orderlyRun : List Event :=
  [.upsert 0 (bytes "d") (bytes "a"), .readBack 0, .upsert 1 (bytes "d") (bytes "b"), .readBack 1,
    .tick (30 * nsPerSecond), .upsert 2 (bytes "d") (bytes "a"), .readBack 2,
    .release (bytes "d") (bytes "a"), .upsert 3 (bytes "d") (bytes "b"), .readBack 3,
    .tick (301 * nsPerSecond), .sweepSelect, .sweepDelete, .sweepBroadcast]

theorem leases_kept_orderlyRun :
    (lockMachine fun _ => []).Along start orderlyRun (Good fun _ => []) :=
  leases_kept (fun _ => []) orderlyRun ⟨List.nodup_nil, rfl, rfl, rfl, rfl⟩
    (Machine.along_of_check (fun _ _ _ => Iff.rfl) (by decide))

/-- The two steps of an acquire are less than the lifetime of a lock apart, and no other user gives
up a lock in between. -/
def undisturbed (s : State) : Event → Bool
  | .tick d => s.acquires.all fun p => decide (s.clock + d < p.startedAt + docLockTTL)
  | .release docID userID =>
      s.acquires.all fun p => decide (p.docID ≠ docID) || decide (p.userID = userID)
  | _ => true

/-- A user acquires a doc in the second in which another user's lock expires. -/
def lastSecond : List Event :=
  [.upsert 0 (bytes "d") (bytes "a"), .readBack 0, .tick docLockTTL,
    .upsert 1 (bytes "d") (bytes "b")]

/-- A user renews a lock that the sweep has selected. -/
def lateRenewal : List Event :=
  [.upsert 0 (bytes "d") (bytes "a"), .readBack 0, .tick docLockTTL, .sweepSelect,
    .upsert 1 (bytes "d") (bytes "a"), .readBack 1, .sweepDelete]

/-- **Neither lock is kept as it should be**: the acquire fails though nobody holds the doc, and the
lock is announced as expired though it was not deleted and is held. -/
theorem lease_not_kept :
    (¬ ∀ (s : State) (evs : List Event), (lockMachine fun _ => []).init s →
      ((lockMachine fun _ => []).Along s evs fun s ev _ => undisturbed s ev = true) →
      (lockMachine fun _ => []).Along s evs (Good fun _ => [])) ∧
    ¬ (lockMachine fun _ => []).Along start (lastSecond ++ [.readBack 1]) (Good fun _ => []) ∧
    ¬ (lockMachine fun _ => []).Along start (lateRenewal ++ [.sweepBroadcast])
      (Good fun _ => []) := by
  have hstep : ∀ s ev t, next (fun _ => []) s ev = some t →
      (lockMachine fun _ => []).step s ev t := fun _ _ _ h => h
  have hlast : ¬ (lockMachine fun _ => []).Along start (lastSecond ++ [.readBack 1])
      (Good fun _ => []) := by
    intro h
    have hgood := h.last (Machine.Run.foldlM hstep rfl) rfl
    obtain ⟨l, hl, -⟩ := hgood _ rfl
    cases hl
  have hlate : ¬ (lockMachine fun _ => []).Along start (lateRenewal ++ [.sweepBroadcast])
      (Good fun _ => []) := by
    intro h
    have hgood := h.last (Machine.Run.foldlM hstep rfl) rfl
    exact absurd hgood.1.length_le (by decide)
  refine ⟨fun h => ?_, hlast, hlate⟩
  refine hlast (h start _ ⟨List.nodup_nil, rfl, rfl, rfl, rfl⟩ ?_)
  exact Machine.along_of_check (fun _ _ _ => Iff.rfl) (by decide)

end WiseLabz.DocLock
