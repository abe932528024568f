/-
**In how many digests a notification is counted.**

A sweep takes the users that are due one by one: it lists a user's notifications that are stamped
later than the watermark, delivers a digest of them, and moves the watermark to the instant at which
the sweep began.  The list has no upper end, the stamps are in whole seconds, and the watermark is
moved whether or not the digest was delivered, so notifications can be counted twice or never.  They
are counted once where the list is what lies between the two watermarks.

Main definitions:

* `Notify.digestDue`, `Notify.listNotificationsSince` — who is due, and what is listed;
* `Notify.nextDigest` — **one step of a sweep**, or a notification;
* `Notify.mark` — up to where the notifications of a user are counted;
* `Notify.settled` — the condition on a step.

Main results:

* `Notify.counted_once` — **every notification is counted by exactly one digest**, and no digest is
  delivered without a new notification, if all steps meet the condition.
-/

import Mathlib.Data.List.Sort
import WiseLabz.Lib.Calendar
import WiseLabz.Lib.Machine

set_option relaxedAutoImplicit false
set_option autoImplicit false

namespace WiseLabz.Notify

open Lib

/-! ### Who is due -/

/-- A time zone: its offset from UTC at every instant, in seconds. -/
structure Location where
  offset : ℕ → ℤ

/-- The seconds that a clock in the zone has counted. -/
def Location.seconds (loc : Location) (t : ℕ) : ℤ := (t / nsPerSecond : ℕ) + loc.offset t

def Location.hour (loc : Location) (t : ℕ) : ℤ := loc.seconds t / 3600 % 24

def Location.day (loc : Location) (t : ℕ) : ℤ := loc.seconds t / 86400

def digestSendHour : ℤ := 8

def calendarDaysBetween (loc : Location) (a b : ℕ) : ℤ := loc.day b - loc.day a

def digestDue (cadence lastSentAt : Bytes) (localHour : ℤ) (now : ℕ) (loc : Location) : Bool :=
  if cadence = bytes "off" then false
  else if localHour ≠ digestSendHour then false
  else if cadence = bytes "daily" then true
  else if cadence = bytes "weekly" then
    if lastSentAt = [] then true
    else
      match parseTime lastSentAt with
      | none => true
      | some last => decide (7 ≤ calendarDaysBetween loc last now)
  else false

structure User where
  id : Bytes
  disabled : Bool
  digestCadence : Bytes
  digestTimezone : Bytes
  digestLastSentAt : Bytes
  deriving DecidableEq, Repr

/-- A user whom a sweep at `now` does not pass over. -/
def User.due (loadLocation : Bytes → Option Location) (now : ℕ) (u : User) : Bool :=
  if u.disabled || u.digestCadence = bytes "off" then false
  else
    match loadLocation u.digestTimezone with
    | none => false
    | some loc => digestDue u.digestCadence u.digestLastSentAt (loc.hour now) now loc

/-- The watermark, or one period of the cadence before the first digest. -/
def User.since (now : ℕ) (u : User) : Bytes :=
  if u.digestLastSentAt = [] then
    rfc3339 (now - if u.digestCadence = bytes "weekly" then 7 * nsPerDay else nsPerDay)
  else u.digestLastSentAt

theorem User.since_of_ne {now : ℕ} {u : User} (h : u.digestLastSentAt ≠ []) :
    u.since now = u.digestLastSentAt := if_neg h

/-! ### Notifications -/

structure Notification where
  id : Bytes
  userID : Bytes
  eventType : Bytes
  title : Bytes
  createdAt : Bytes
  deriving DecidableEq, Repr

/-- The types of the events that a digest counts. -/
def digestEvents : List Bytes :=
  [bytes "alert.created", bytes "finding.created", bytes "system.job_failed",
    bytes "runbook.run_failed", bytes "runbook.run_waiting", bytes "runbook.run_approval_requested"]

/-- A notification that a digest of the user may count. -/
def Notification.isFor (n : Notification) (userID : Bytes) : Prop :=
  n.userID = userID ∧ n.eventType ∈ digestEvents

instance (n : Notification) (userID : Bytes) : Decidable (n.isFor userID) :=
  inferInstanceAs (Decidable (_ ∧ _))

def listNotificationsSince (notifications : List Notification) (userID since : Bytes) :
    List Notification :=
  (notifications.filter fun n =>
    decide (n.isFor userID) && (since = [] || decide (since < n.createdAt))).insertionSort
      fun n m => m.createdAt ≤ n.createdAt

def decimalText (n : ℕ) : Bytes := (Nat.toDigits 10 n).map fun c => c.toNat.toUInt8

/-- The title and the message of a digest: the number, and the first ten titles. -/
def formatDigest (notifications : List Notification) : Bytes × Bytes :=
  let n := notifications.length
  (bytes "Digest: " ++ decimalText n ++ bytes " new notification(s)",
    decimalText n ++ bytes " new notification(s) since your last digest:\n\n" ++
      ((notifications.take 10).flatMap fun m => bytes "- " ++ m.title ++ bytes "\n") ++
        if 10 < n then [226, 128, 166] ++ bytes "and " ++ decimalText (n - 10) ++ bytes " more\n"
        else [])

/-- A digest that was delivered, with the notifications that it counts. -/
structure Digest where
  userID : Bytes
  since : Bytes
  /-- The instant of the sweep. -/
  now : ℕ
  notifications : List Notification
  title : Bytes
  message : Bytes
  deriving DecidableEq, Repr

/-! ### Sweeps -/

/-- Where a sweep stands with a user, whose record is the one that was listed. -/
inductive Phase
  | idle
  /-- There is nothing to send. -/
  | empty (u : User)
  | listed (u : User) (found : List Notification)
  /-- `sendInApp` has returned. -/
  | sent (u : User) (ok : Bool)
  deriving DecidableEq, Repr

/-- A sweep, with the users still to come. -/
structure Sweep where
  now : ℕ
  todo : List User
  phase : Phase
  deriving DecidableEq, Repr

structure DigestState where
  /-- What the clock showed last. -/
  clock : ℕ
  users : List User
  notifications : List Notification
  delivered : List Digest
  sweep : Option Sweep
  deriving DecidableEq, Repr

inductive DigestEvent
  | insert (t : ℕ) (id userID eventType title : Bytes)
  | beginSweep (t : ℕ)
  /-- The next user; `ok` tells whether the notifications can be read. -/
  | nextUser (ok : Bool)
  | send (ok : Bool)
  /-- The watermark is written, or that fails. -/
  | advance (ok : Bool)
  | endSweep
  deriving DecidableEq, Repr

def digestOf (u : User) (now : ℕ) (found : List Notification) : Digest where
  userID := u.id
  since := u.since now
  now := now
  notifications := found
  title := (formatDigest found).1
  message := (formatDigest found).2

/-- The watermark of a user is written. -/
def setLastSentAt (users : List User) (id lastSentAt : Bytes) : List User :=
  users.map fun u => if u.id = id then { u with digestLastSentAt := lastSentAt } else u

/-- **One step**; the clock does not go back, and shows a year before 10000. -/
def nextDigest (loadLocation : Bytes → Option Location) (s : DigestState) :
    DigestEvent → Option DigestState
  | .insert t id userID eventType title =>
      if s.clock ≤ t ∧ t < endOfYears ∧ ∀ n ∈ s.notifications, n.id ≠ id then
        some { s with
          clock := t
          notifications := s.notifications ++ [⟨id, userID, eventType, title, rfc3339 t⟩] }
      else none
  | .beginSweep t =>
      if s.clock ≤ t ∧ t < endOfYears ∧ s.sweep = none then
        some { s with clock := t, sweep := some ⟨t, s.users, .idle⟩ }
      else none
  | .nextUser ok =>
      match s.sweep with
      | some ⟨now, u :: todo, .idle⟩ =>
          let found := listNotificationsSince s.notifications u.id (u.since now)
          let phase := if u.due loadLocation now = true ∧ ok = true then
            if found = [] then .empty u else .listed u found else .idle
          some { s with sweep := some ⟨now, todo, phase⟩ }
      | _ => none
  | .send ok =>
      match s.sweep with
      | some ⟨now, todo, .listed u found⟩ =>
          some { s with
            delivered := if ok then s.delivered ++ [digestOf u now found] else s.delivered
            sweep := some ⟨now, todo, .sent u ok⟩ }
      | _ => none
  | .advance ok =>
      match s.sweep with
      | some ⟨now, todo, .empty u⟩ | some ⟨now, todo, .sent u _⟩ =>
          some { s with
            users := if ok then setLastSentAt s.users u.id (rfc3339 now) else s.users
            sweep := some ⟨now, todo, .idle⟩ }
      | _ => none
  | .endSweep =>
      match s.sweep with
      | some ⟨_, [], .idle⟩ => some { s with sweep := none }
      | _ => none

/-- Before the first sweep the watermarks are empty or in the past. -/
def digestMachine (loadLocation : Bytes → Option Location) : Machine DigestState DigestEvent where
  init s := s.clock < endOfYears ∧ (s.users.map User.id).Nodup ∧
    (∀ u ∈ s.users, u.digestLastSentAt ≤ rfc3339 s.clock) ∧ s.delivered = [] ∧ s.sweep = none
  step s ev t := nextDigest loadLocation s ev = some t

/-! ### Up to where notifications are counted -/

/-- The instant of the digest that was just delivered to the user, or the watermark. -/
def mark (sweep : Option Sweep) (u : User) : Bytes :=
  match sweep with
  | some ⟨now, _, .sent v true⟩ => if v.id = u.id then rfc3339 now else u.digestLastSentAt
  | _ => u.digestLastSentAt

/-- **The condition on a step**: a notification is stamped after its user's mark; a digest counts
what is stamped up to the instant of its sweep, and nothing else; and the watermark is moved where
the digest was delivered, or where nothing is stamped up to there. -/
def settled (s : DigestState) : DigestEvent → Bool
  | .insert t _ userID eventType _ => decide (eventType ∈ digestEvents →
      ∀ u ∈ s.users, u.id = userID → mark s.sweep u < rfc3339 t)
  | .send ok =>
      match s.sweep with
      | some ⟨now, _, .listed u found⟩ => decide (ok = true → ∀ n ∈ s.notifications,
          n.isFor u.id → u.since now < n.createdAt → (n ∈ found ↔ n.createdAt ≤ rfc3339 now))
      | _ => true
  | .advance ok =>
      match s.sweep with
      | some ⟨_, _, .sent _ sent⟩ => ok = sent
      | some ⟨now, _, .empty u⟩ => decide (ok = true → ∀ n ∈ s.notifications,
          n.isFor u.id → u.since now < n.createdAt → rfc3339 now < n.createdAt)
      | _ => true
  | _ => true

/-- The digests of a user, in the order of delivery. -/
def digestsOf (delivered : List Digest) (userID : Bytes) : List Digest :=
  delivered.filter fun d => d.userID = userID

/-- The number of a user's digests that count a notification. -/
def timesCounted (delivered : List Digest) (userID : Bytes) (n : Notification) : ℕ :=
  (digestsOf delivered userID).countP fun d => n ∈ d.notifications

theorem mem_digestsOf {delivered : List Digest} {userID : Bytes} {d : Digest} :
    d ∈ digestsOf delivered userID ↔ d ∈ delivered ∧ d.userID = userID := by
  rw [digestsOf, List.mem_filter, decide_eq_true_eq]

theorem digestsOf_concat (delivered : List Digest) (d : Digest) :
    digestsOf (delivered ++ [d]) d.userID = digestsOf delivered d.userID ++ [d] := by
  simp [digestsOf, List.filter_append]

theorem digestsOf_concat_of_ne {delivered : List Digest} {d : Digest} {userID : Bytes}
    (h : d.userID ≠ userID) : digestsOf (delivered ++ [d]) userID = digestsOf delivered userID := by
  simp [digestsOf, List.filter_append, h]

theorem timesCounted_concat (delivered : List Digest) (d : Digest) (n : Notification) :
    timesCounted (delivered ++ [d]) d.userID n =
      timesCounted delivered d.userID n + if n ∈ d.notifications then 1 else 0 := by
  simp [timesCounted, digestsOf_concat, List.countP_append, List.countP_cons]

/-- What a digest counts is stamped up to the instant of its sweep. -/
def Within (delivered : List Digest) (notifications : List Notification) : Prop :=
  ∀ d ∈ delivered, ∀ n ∈ d.notifications,
    n ∈ notifications ∧ n.isFor d.userID ∧ n.createdAt ≤ rfc3339 d.now

/-- **A user's notifications are counted once up to a mark**, from the start of the first digest. -/
structure CountedUpTo (delivered : List Digest) (notifications : List Notification)
    (userID mark : Bytes) : Prop where
  marked : ∀ d ∈ digestsOf delivered userID, rfc3339 d.now ≤ mark
  once : ∀ n ∈ notifications, n.isFor userID → n.createdAt ≤ mark →
    ∀ d, (digestsOf delivered userID).head? = some d → d.since < n.createdAt →
      timesCounted delivered userID n = 1

variable {delivered : List Digest} {notifications : List Notification} {userID w : Bytes}

/-- After the mark, nothing is counted. -/
theorem CountedUpTo.timesCounted_eq_zero (h : CountedUpTo delivered notifications userID w)
    (hwithin : Within delivered notifications) {n : Notification} (hn : w < n.createdAt) :
    timesCounted delivered userID n = 0 := by
  rw [timesCounted, List.countP_eq_zero]
  intro d hd hmem
  have hstamp := (hwithin d (mem_digestsOf.1 hd).1 n (of_decide_eq_true hmem)).2.2
  exact absurd (Std.lt_of_lt_of_le hn (Std.le_trans hstamp (h.marked d hd))) Std.lt_irrefl

/-- A mark under which a digest was delivered is not empty. -/
theorem CountedUpTo.ne_nil (h : CountedUpTo delivered notifications userID w) {d : Digest}
    (hd : d ∈ digestsOf delivered userID) : w ≠ [] := by
  rintro rfl
  exact rfc3339_ne_nil d.now (List.le_nil.1 (h.marked d hd))

/-- A notification that is stamped after the mark, or is not counted. -/
theorem CountedUpTo.insert (h : CountedUpTo delivered notifications userID w) {n : Notification}
    (hn : n.isFor userID → w < n.createdAt) :
    CountedUpTo delivered (notifications ++ [n]) userID w where
  marked := h.marked
  once m hm hfor hle d hd hsince := by
    rcases List.mem_append.1 hm with hm | hm
    · exact h.once m hm hfor hle d hd hsince
    · rw [List.mem_singleton.1 hm] at hfor hle
      exact absurd (Std.lt_of_lt_of_le (hn hfor) hle) Std.lt_irrefl

/-- A digest of another user. -/
theorem CountedUpTo.other (h : CountedUpTo delivered notifications userID w) {d : Digest}
    (hd : d.userID ≠ userID) : CountedUpTo (delivered ++ [d]) notifications userID w := by
  refine ⟨?_, ?_⟩
  · rw [digestsOf_concat_of_ne hd]
    exact h.marked
  · intro n hn hfor hle e he hsince
    rw [digestsOf_concat_of_ne hd] at he
    rw [timesCounted, digestsOf_concat_of_ne hd]
    exact h.once n hn hfor hle e he hsince

/-- **A digest moves the mark to its sweep**, if it counts what is stamped between. -/
theorem CountedUpTo.deliver {u : User} {now : ℕ} {found : List Notification}
    (h : CountedUpTo delivered notifications u.id u.digestLastSentAt)
    (hwithin : Within delivered notifications) (hw : u.digestLastSentAt ≤ rfc3339 now)
    (hfound : ∀ n ∈ found, u.since now < n.createdAt)
    (hsettled : ∀ n ∈ notifications, n.isFor u.id → u.since now < n.createdAt →
      (n ∈ found ↔ n.createdAt ≤ rfc3339 now)) :
    CountedUpTo (delivered ++ [digestOf u now found]) notifications u.id (rfc3339 now) := by
  have hdigests : digestsOf (delivered ++ [digestOf u now found]) u.id =
      digestsOf delivered u.id ++ [digestOf u now found] :=
    digestsOf_concat _ (digestOf u now found)
  have hcount : ∀ n, timesCounted (delivered ++ [digestOf u now found]) u.id n =
      timesCounted delivered u.id n + if n ∈ found then 1 else 0 :=
    fun n => timesCounted_concat delivered (digestOf u now found) n
  refine ⟨?_, ?_⟩
  · intro d hd
    rw [hdigests, List.mem_append, List.mem_singleton] at hd
    rcases hd with hd | rfl
    · exact Std.le_trans (h.marked d hd) hw
    · exact Std.le_refl _
  · intro n hn hfor hle d hd hsince
    rw [hdigests, List.head?_append] at hd
    rw [hcount]
    -- before the first digest the start is its own; afterwards it is the watermark
    cases hfirst : (digestsOf delivered u.id).head? with
    | none =>
        rw [hfirst] at hd
        obtain rfl : digestOf u now found = d := Option.some.inj hd
        have hnil : digestsOf delivered u.id = [] := List.head?_eq_none_iff.1 hfirst
        rw [if_pos ((hsettled n hn hfor hsince).2 hle), timesCounted, hnil]
        rfl
    | some e =>
        rw [hfirst] at hd
        obtain rfl : e = d := Option.some.inj hd
        have he : e ∈ digestsOf delivered u.id := List.mem_of_mem_head? hfirst
        have hstart : u.since now = u.digestLastSentAt := User.since_of_ne (h.ne_nil he)
        by_cases hbefore : n.createdAt ≤ u.digestLastSentAt
        · have hnot : n ∉ found := by
            intro hmem
            have hlt := hfound n hmem
            rw [hstart] at hlt
            exact absurd (Std.lt_of_lt_of_le hlt hbefore) Std.lt_irrefl
          rw [if_neg hnot, h.once n hn hfor hbefore e hfirst hsince]
        · have hafter : u.digestLastSentAt < n.createdAt := Std.not_le.1 hbefore
          have hmem := (hsettled n hn hfor (hstart ▸ hafter)).2 hle
          rw [if_pos hmem, h.timesCounted_eq_zero hwithin hafter]

/-- **Nothing is stamped up to the new watermark.** -/
theorem CountedUpTo.advance {u : User} {now : ℕ}
    (h : CountedUpTo delivered notifications u.id u.digestLastSentAt)
    (hw : u.digestLastSentAt ≤ rfc3339 now)
    (hsettled : ∀ n ∈ notifications, n.isFor u.id → u.since now < n.createdAt →
      rfc3339 now < n.createdAt) :
    CountedUpTo delivered notifications u.id (rfc3339 now) where
  marked d hd := Std.le_trans (h.marked d hd) hw
  once n hn hfor hle d hd hsince := by
    have hstart : u.since now = u.digestLastSentAt :=
      User.since_of_ne (h.ne_nil (List.mem_of_mem_head? hd))
    by_cases hbefore : n.createdAt ≤ u.digestLastSentAt
    · exact h.once n hn hfor hbefore d hd hsince
    · have hafter : u.digestLastSentAt < n.createdAt := Std.not_le.1 hbefore
      have hlt := hsettled n hn hfor (hstart ▸ hafter)
      exact absurd (Std.lt_of_lt_of_le hlt hle) Std.lt_irrefl

/-! ### Sweeps -/

theorem User.since_ne_nil (now : ℕ) (u : User) : u.since now ≠ [] := by
  unfold User.since
  split
  · exact rfc3339_ne_nil _
  · assumption

theorem mem_listNotificationsSince {since : Bytes} (hsince : since ≠ []) {n : Notification} :
    n ∈ listNotificationsSince notifications userID since ↔
      n ∈ notifications ∧ n.isFor userID ∧ since < n.createdAt := by
  rw [listNotificationsSince, List.mem_insertionSort, List.mem_filter, Bool.and_eq_true,
    decide_eq_true_eq, decide_eq_false hsince, Bool.false_or, decide_eq_true_eq]

/-- The user whom a sweep is at. -/
def Phase.user : Phase → List User
  | .idle => []
  | .empty u | .listed u _ | .sent u _ => [u]

/-- The records that a sweep has read are still there, each once. -/
structure SweepOk (s : DigestState) (sw : Sweep) : Prop where
  now_le : sw.now ≤ s.clock
  watermark : ∀ u ∈ s.users, u.digestLastSentAt ≤ rfc3339 sw.now
  users : ∀ u ∈ sw.phase.user ++ sw.todo, u ∈ s.users
  nodup : ((sw.phase.user ++ sw.todo).map User.id).Nodup
  found : ∀ u found, sw.phase = .listed u found → ∃ n, n ∈ found
  listed : ∀ u found, sw.phase = .listed u found → ∀ n ∈ found,
    n ∈ s.notifications ∧ n.isFor u.id ∧ u.since sw.now < n.createdAt

/-- A later digest of a user counts a notification that is newer than an earlier one. -/
def Newer (d e : Digest) : Prop :=
  d.userID = e.userID → ∃ n ∈ e.notifications, rfc3339 d.now < n.createdAt

structure DigestInv (s : DigestState) : Prop where
  clock : s.clock < endOfYears
  ids : (s.users.map User.id).Nodup
  past : ∀ u ∈ s.users, u.digestLastSentAt ≤ rfc3339 s.clock
  within : Within s.delivered s.notifications
  counted : ∀ u ∈ s.users, CountedUpTo s.delivered s.notifications u.id (mark s.sweep u)
  newer : s.delivered.Pairwise Newer
  sweep : ∀ sw, s.sweep = some sw → SweepOk s sw

theorem DigestInv.insert {s : DigestState} (h : DigestInv s) {t : ℕ} (n : Notification)
    (hclock : s.clock ≤ t) (ht : t < endOfYears)
    (hn : ∀ u ∈ s.users, n.isFor u.id → mark s.sweep u < n.createdAt) :
    DigestInv { s with clock := t, notifications := s.notifications ++ [n] } where
  clock := ht
  ids := h.ids
  past u hu := Std.le_trans (h.past u hu) (rfc3339_mono ht hclock)
  within d hd m hm := by
    obtain ⟨hmem, hfor, hle⟩ := h.within d hd m hm
    exact ⟨List.mem_append_left _ hmem, hfor, hle⟩
  counted u hu := (h.counted u hu).insert (hn u hu)
  newer := h.newer
  sweep sw hsw := by
    obtain ⟨hnow, hwatermark, husers, hnodup, hfound, hlisted⟩ := h.sweep sw hsw
    refine ⟨hnow.trans hclock, hwatermark, husers, hnodup, hfound, fun u found hphase m hm => ?_⟩
    obtain ⟨hmem, hfor, hlt⟩ := hlisted u found hphase m hm
    exact ⟨List.mem_append_left _ hmem, hfor, hlt⟩

theorem DigestInv.beginSweep {s : DigestState} (h : DigestInv s) {t : ℕ} (hclock : s.clock ≤ t)
    (ht : t < endOfYears) (hsweep : s.sweep = none) :
    DigestInv { s with clock := t, sweep := some ⟨t, s.users, .idle⟩ } where
  clock := ht
  ids := h.ids
  past u hu := Std.le_trans (h.past u hu) (rfc3339_mono ht hclock)
  within := h.within
  counted u hu := by
    have hcounted := h.counted u hu
    rw [hsweep] at hcounted
    exact hcounted
  newer := h.newer
  sweep sw hsw := by
    obtain rfl := Option.some.inj hsw
    refine ⟨le_rfl, fun u hu => Std.le_trans (h.past u hu) (rfc3339_mono ht hclock),
      fun u hu => hu, h.ids, ?_, ?_⟩
    · exact fun u found hphase => nomatch hphase
    · exact fun u found hphase => nomatch hphase

/-- The next user is passed over, or the notifications are listed. -/
theorem DigestInv.nextUser {s : DigestState} (h : DigestInv s) {now : ℕ} {todo : List User}
    {u : User} (hsweep : s.sweep = some ⟨now, u :: todo, .idle⟩) {phase : Phase}
    (hphase : phase = .idle ∨ phase = .empty u ∨
      (phase = .listed u (listNotificationsSince s.notifications u.id (u.since now)) ∧
        listNotificationsSince s.notifications u.id (u.since now) ≠ [])) :
    DigestInv { s with sweep := some ⟨now, todo, phase⟩ } := by
  obtain ⟨hnow, hwatermark, husers, hnodup, -, -⟩ := h.sweep _ hsweep
  have hmark : ∀ v, mark (some ⟨now, todo, phase⟩) v = mark s.sweep v := by
    intro v
    rw [hsweep]
    rcases hphase with rfl | rfl | ⟨rfl, -⟩ <;> rfl
  refine ⟨h.clock, h.ids, h.past, h.within, fun v hv => hmark v ▸ h.counted v hv, h.newer, ?_⟩
  intro sw hsw
  obtain rfl := Option.some.inj hsw
  rcases hphase with rfl | rfl | ⟨rfl, hne⟩
  · refine ⟨hnow, hwatermark, fun v hv => husers v (List.mem_cons_of_mem u hv),
      (List.nodup_cons.1 hnodup).2, ?_, ?_⟩
    · exact fun v found hphase => nomatch hphase
    · exact fun v found hphase => nomatch hphase
  · refine ⟨hnow, hwatermark, husers, hnodup, ?_, ?_⟩
    · exact fun v found hphase => nomatch hphase
    · exact fun v found hphase => nomatch hphase
  · refine ⟨hnow, hwatermark, husers, hnodup, fun v found hlisted => ?_,
      fun v found hlisted n hn => ?_⟩
    · obtain ⟨rfl, rfl⟩ := Phase.listed.inj hlisted
      exact List.exists_mem_of_ne_nil _ hne
    · obtain ⟨rfl, rfl⟩ := Phase.listed.inj hlisted
      exact (mem_listNotificationsSince (u.since_ne_nil now)).1 hn

/-- **A digest is delivered**, or is not. -/
theorem DigestInv.send {s : DigestState} (h : DigestInv s) {now : ℕ} {todo : List User} {u : User}
    {found : List Notification} (hsweep : s.sweep = some ⟨now, todo, .listed u found⟩) {ok : Bool}
    (hsettled : ok = true → ∀ n ∈ s.notifications, n.isFor u.id → u.since now < n.createdAt →
      (n ∈ found ↔ n.createdAt ≤ rfc3339 now)) :
    DigestInv { s with
      delivered := if ok then s.delivered ++ [digestOf u now found] else s.delivered
      sweep := some ⟨now, todo, .sent u ok⟩ } := by
  obtain ⟨hnow, hwatermark, husers, hnodup, hfound, hlisted⟩ := h.sweep _ hsweep
  have hu : u ∈ s.users := husers u List.mem_cons_self
  have hsw : SweepOk s ⟨now, todo, .sent u ok⟩ := by
    refine ⟨hnow, hwatermark, husers, hnodup, ?_, ?_⟩
    · exact fun v found hphase => nomatch hphase
    · exact fun v found hphase => nomatch hphase
  have hcounted : ∀ v ∈ s.users,
      CountedUpTo s.delivered s.notifications v.id v.digestLastSentAt := by
    intro v hv
    have hv := h.counted v hv
    rw [hsweep] at hv
    exact hv
  cases ok with
  | false =>
      refine ⟨h.clock, h.ids, h.past, h.within, hcounted, h.newer, ?_⟩
      intro sw hsw'
      obtain rfl := Option.some.inj hsw'
      exact ⟨hsw.now_le, hsw.watermark, hsw.users, hsw.nodup, hsw.found, hsw.listed⟩
  | true =>
      have hsettled := hsettled rfl
      refine ⟨h.clock, h.ids, h.past, ?_, ?_, ?_, ?_⟩
      · intro d hd n hn
        rcases List.mem_append.1 hd with hd | hd
        · exact h.within d hd n hn
        · obtain rfl := List.mem_singleton.1 hd
          obtain ⟨hmem, hfor, hlt⟩ := hlisted u found rfl n hn
          exact ⟨hmem, hfor, (hsettled n hmem hfor hlt).1 hn⟩
      · intro v hv
        by_cases hid : u.id = v.id
        · obtain rfl : v = u := List.inj_on_of_nodup_map h.ids hv hu hid.symm
          have hmark : mark (some ⟨now, todo, .sent v true⟩) v = rfc3339 now := if_pos rfl
          show CountedUpTo _ _ _ (mark (some ⟨now, todo, .sent v true⟩) v)
          rw [hmark]
          exact (hcounted v hv).deliver h.within (hwatermark v hv)
            (fun n hn => (hlisted v found rfl n hn).2.2) hsettled
        · have hmark : mark (some ⟨now, todo, .sent u true⟩) v = v.digestLastSentAt := if_neg hid
          show CountedUpTo _ _ _ (mark (some ⟨now, todo, .sent u true⟩) v)
          rw [hmark]
          exact (hcounted v hv).other hid
      · refine List.pairwise_append.2 ⟨h.newer, List.pairwise_singleton _ _, ?_⟩
        intro d hd e he huser
        obtain rfl := List.mem_singleton.1 he
        have hd' : d ∈ digestsOf s.delivered u.id := mem_digestsOf.2 ⟨hd, huser⟩
        obtain ⟨n, hn⟩ := hfound u found rfl
        refine ⟨n, hn, Std.lt_of_le_of_lt ((hcounted u hu).marked d hd') ?_⟩
        have hlt := (hlisted u found rfl n hn).2.2
        rwa [User.since_of_ne ((hcounted u hu).ne_nil hd')] at hlt
      · intro sw hsw'
        obtain rfl := Option.some.inj hsw'
        exact ⟨hsw.now_le, hsw.watermark, hsw.users, hsw.nodup, hsw.found, hsw.listed⟩

theorem setLastSentAt_ids (users : List User) (id lastSentAt : Bytes) :
    (setLastSentAt users id lastSentAt).map User.id = users.map User.id := by
  rw [setLastSentAt, List.map_map]
  refine List.map_congr_left fun u _ => ?_
  simp only [Function.comp_apply]
  split <;> rfl

/-- **The watermark is written**, where notifications are counted up to it, or is not. -/
theorem DigestInv.advance {s : DigestState} (h : DigestInv s) {now : ℕ} {todo : List User}
    {phase : Phase} {u : User} (hsweep : s.sweep = some ⟨now, todo, phase⟩)
    (hphase : phase.user = [u]) {ok : Bool}
    (hcounted : CountedUpTo s.delivered s.notifications u.id
      (if ok then rfc3339 now else u.digestLastSentAt)) :
    DigestInv { s with
      users := if ok then setLastSentAt s.users u.id (rfc3339 now) else s.users
      sweep := some ⟨now, todo, .idle⟩ } := by
  obtain ⟨hnow, hwatermark, husers, hnodup, -, -⟩ := h.sweep _ hsweep
  simp only [hphase] at husers hnodup
  have hu : u ∈ s.users := husers u List.mem_cons_self
  have hother : ∀ v ∈ s.users, v.id ≠ u.id →
      CountedUpTo s.delivered s.notifications v.id v.digestLastSentAt := by
    intro v hv hid
    have hv := h.counted v hv
    have hmark : mark s.sweep v = v.digestLastSentAt := by
      rw [hsweep]
      cases phase with
      | idle => cases hphase
      | empty _ => rfl
      | listed _ _ => rfl
      | sent v' sent =>
          obtain rfl := List.singleton_inj.1 hphase
          cases sent with
          | false => rfl
          | true => exact if_neg (Ne.symm hid)
    rwa [hmark] at hv
  have htodo : ∀ v ∈ todo, v ∈ s.users ∧ v.id ≠ u.id := by
    intro v hv
    refine ⟨husers v (List.mem_cons_of_mem u hv), fun hid => ?_⟩
    exact (List.nodup_cons.1 hnodup).1 (List.mem_map.2 ⟨v, hv, hid⟩)
  cases ok with
  | false =>
      refine ⟨h.clock, h.ids, h.past, h.within, fun v hv => ?_, h.newer, ?_⟩
      · by_cases hid : v.id = u.id
        · obtain rfl : v = u := List.inj_on_of_nodup_map h.ids hv hu hid
          exact hcounted
        · exact hother v hv hid
      · intro sw hsw
        obtain rfl := Option.some.inj hsw
        refine ⟨hnow, hwatermark, fun v hv => (htodo v hv).1, (List.nodup_cons.1 hnodup).2, ?_, ?_⟩
        · exact fun v found hphase => nomatch hphase
        · exact fun v found hphase => nomatch hphase
  | true =>
      -- the user's record is the only one that changes
      have hmem : ∀ v ∈ setLastSentAt s.users u.id (rfc3339 now),
          v ∈ s.users ∧ v.id ≠ u.id ∨ v.id = u.id ∧ v.digestLastSentAt = rfc3339 now := by
        intro v hv
        obtain ⟨v', hv', rfl⟩ := List.mem_map.1 hv
        by_cases hid : v'.id = u.id
        · right
          rw [if_pos hid]
          exact ⟨hid, rfl⟩
        · left
          rw [if_neg hid]
          exact ⟨hv', hid⟩
      have hpast : ∀ v ∈ setLastSentAt s.users u.id (rfc3339 now),
          v.digestLastSentAt ≤ rfc3339 now := by
        intro v hv
        rcases hmem v hv with ⟨hv, -⟩ | ⟨-, hv⟩
        · exact hwatermark v hv
        · exact hv ▸ Std.le_refl _
      refine ⟨h.clock, ?_, fun v hv => ?_, h.within, fun v hv => ?_, h.newer, ?_⟩
      · show ((setLastSentAt s.users u.id (rfc3339 now)).map User.id).Nodup
        rw [setLastSentAt_ids]
        exact h.ids
      · exact Std.le_trans (hpast v hv) (rfc3339_mono h.clock hnow)
      · rcases hmem v hv with ⟨hv, hid⟩ | ⟨hid, hlast⟩
        · exact hother v hv hid
        · show CountedUpTo _ _ v.id v.digestLastSentAt
          rw [hid, hlast]
          exact hcounted
      · intro sw hsw
        obtain rfl := Option.some.inj hsw
        refine ⟨hnow, hpast, fun v hv => ?_, (List.nodup_cons.1 hnodup).2, ?_, ?_⟩
        · obtain ⟨hv', hid⟩ := htodo v hv
          exact List.mem_map.2 ⟨v, hv', if_neg hid⟩
        · exact fun v found hphase => nomatch hphase
        · exact fun v found hphase => nomatch hphase

/-- **One step** that meets the condition. -/
theorem DigestInv.next {loadLocation : Bytes → Option Location} {s t : DigestState}
    {ev : DigestEvent} (h : DigestInv s) (hsettled : settled s ev = true)
    (hnext : nextDigest loadLocation s ev = some t) : DigestInv t := by
  cases ev with
  | insert t' id userID eventType title =>
      simp only [nextDigest] at hnext
      split at hnext
      · next hguard =>
          obtain rfl := Option.some.inj hnext
          have hstamp := of_decide_eq_true hsettled
          exact h.insert _ hguard.1 hguard.2.1 fun u hu hfor => hstamp hfor.2 u hu hfor.1.symm
      · cases hnext
  | beginSweep t' =>
      simp only [nextDigest] at hnext
      split at hnext
      · next hguard =>
          obtain rfl := Option.some.inj hnext
          exact h.beginSweep hguard.1 hguard.2.1 hguard.2.2
      · cases hnext
  | nextUser ok =>
      simp only [nextDigest] at hnext
      split at hnext
      · next now u todo hsweep =>
          obtain rfl := Option.some.inj hnext
          refine h.nextUser hsweep ?_
          split
          · split
            · exact .inr (.inl rfl)
            · next hne => exact .inr (.inr ⟨rfl, hne⟩)
          · exact .inl rfl
      · cases hnext
  | send ok =>
      simp only [nextDigest] at hnext
      split at hnext
      · next now todo u found hsweep =>
          obtain rfl := Option.some.inj hnext
          simp only [settled, hsweep] at hsettled
          exact h.send hsweep (of_decide_eq_true hsettled)
      · cases hnext
  | advance ok =>
      simp only [nextDigest] at hnext
      split at hnext
      · next now todo u hsweep =>
          obtain rfl := Option.some.inj hnext
          have hu : u ∈ s.users := (h.sweep _ hsweep).users u List.mem_cons_self
          have hcounted := h.counted u hu
          rw [hsweep] at hcounted
          refine h.advance hsweep rfl ?_
          cases ok with
          | false => exact hcounted
          | true =>
              simp only [settled, hsweep] at hsettled
              exact CountedUpTo.advance hcounted ((h.sweep _ hsweep).watermark u hu)
                (of_decide_eq_true hsettled trivial)
      · next now todo u sent hsweep =>
          obtain rfl := Option.some.inj hnext
          have hu : u ∈ s.users := (h.sweep _ hsweep).users u List.mem_cons_self
          have hcounted := h.counted u hu
          rw [hsweep] at hcounted
          refine h.advance hsweep rfl ?_
          simp only [settled, hsweep] at hsettled
          obtain rfl := of_decide_eq_true hsettled
          cases ok with
          | false => exact hcounted
          | true =>
              rw [show mark (some ⟨now, todo, .sent u true⟩) u = rfc3339 now from if_pos rfl]
                at hcounted
              exact hcounted
      · cases hnext
  | endSweep =>
      simp only [nextDigest] at hnext
      split at hnext
      · next now hsweep =>
          obtain rfl := Option.some.inj hnext
          refine ⟨h.clock, h.ids, h.past, h.within, fun u hu => ?_, h.newer,
            fun sw hsw => nomatch hsw⟩
          have hcounted := h.counted u hu
          rw [hsweep] at hcounted
          exact hcounted
      · cases hnext

/-- **Every notification is counted by exactly one digest**: in a run whose steps all meet the
condition, those stamped after the start of the user's first digest and up to the sweep that sent
the last one; and of any two digests of a user the later one counts a newer notification. -/
theorem counted_once (loadLocation : Bytes → Option Location) {s : DigestState}
    (h : ((digestMachine loadLocation).restrict fun s ev => settled s ev = true).Reachable s) :
    (∀ u ∈ s.users, ∀ first last, (digestsOf s.delivered u.id).head? = some first →
      (digestsOf s.delivered u.id).getLast? = some last → ∀ n ∈ s.notifications, n.isFor u.id →
        first.since < n.createdAt → n.createdAt ≤ rfc3339 last.now →
          timesCounted s.delivered u.id n = 1) ∧
      s.delivered.Pairwise fun d e => d.userID = e.userID →
        ∃ n ∈ s.notifications, n ∈ e.notifications ∧ rfc3339 d.now < n.createdAt := by
  have hinv : DigestInv s := by
    refine h.invariant ?_ fun s ev t hs hstep => hs.next hstep.1 hstep.2
    rintro ⟨clock, users, notifications, delivered, sweep⟩ ⟨hclock, hids, hpast, rfl, rfl⟩
    refine ⟨hclock, hids, hpast, ?_, fun u _ => ⟨?_, ?_⟩, List.Pairwise.nil, ?_⟩
    · exact fun d hd => absurd hd List.not_mem_nil
    · exact fun d hd => absurd hd List.not_mem_nil
    · exact fun n _ _ _ d hd => nomatch hd
    · exact fun sw hsw => nomatch hsw
  constructor
  · intro u hu first last hfirst hlast n hn hfor hsince hle
    have hcounted := hinv.counted u hu
    exact hcounted.once n hn hfor
      (Std.le_trans hle (hcounted.marked last (List.mem_of_getLast? hlast))) first hfirst hsince
  · refine List.Pairwise.imp_of_mem ?_ hinv.newer
    intro d e _ he hnewer huser
    obtain ⟨n, hn, hlt⟩ := hnewer huser
    exact ⟨n, (hinv.within e he n hn).1, hn, hlt⟩

/-! ### Runs on fixed inputs -/

/-- Eight o'clock, on a day of 2026. -/
def eightOClock (day : ℕ) : ℕ := (daysBeforeYear 2026 + day) * nsPerDay + 8 * nsPerHour

def utc (_ : Bytes) : Option Location := some ⟨fun _ => 0⟩

def dailyUser (lastSentAt : Bytes) : User :=
  ⟨bytes "u", false, bytes "daily", bytes "UTC", lastSentAt⟩

def alertFor (id : String) (t : ℕ) : Notification :=
  ⟨bytes id, bytes "u", bytes "alert.created", bytes "Host down", rfc3339 t⟩

/-- A user with one notification, an hour before the first sweep. -/
def oneAlert : DigestState where
  clock := eightOClock 0 - nsPerHour
  users := [dailyUser []]
  notifications := [alertFor "n0" (eightOClock 0 - nsPerHour)]
  delivered := []
  sweep := none

def alertEvent (id : String) (t : ℕ) : DigestEvent :=
  .insert t (bytes id) (bytes "u") (bytes "alert.created") (bytes "Host down")

/-- A sweep, with what `sendInApp` and the writing of the watermark return. -/
def sweepEvents (t : ℕ) (sent advanced : Bool) : List DigestEvent :=
  [.beginSweep t, .nextUser true, .send sent, .advance advanced, .endSweep]

theorem oneAlert_init : (digestMachine utc).init oneAlert := by
  refine ⟨by decide, List.nodup_singleton _, fun u hu => ?_, rfl, rfl⟩
  obtain rfl := List.mem_singleton.1 hu
  exact List.nil_le _

/-- Two days, with a digest on each. -/
theorem counted_once_sample : ∃ s : DigestState,
    s.delivered.map (fun d => d.notifications.map Notification.id) =
      [[bytes "n0"], [bytes "n1"]] ∧
      s.delivered.Pairwise fun d e => d.userID = e.userID →
        ∃ n ∈ s.notifications, n ∈ e.notifications ∧ rfc3339 d.now < n.createdAt := by
  have hrun : ((sweepEvents (eightOClock 0) true true ++
      alertEvent "n1" (eightOClock 0 + nsPerHour) :: sweepEvents (eightOClock 1) true true).foldlM
        (fun s ev => if settled s ev then nextDigest utc s ev else none) oneAlert).map
          (fun s => s.delivered.map fun d => d.notifications.map Notification.id) =
        some [[bytes "n0"], [bytes "n1"]] := by
    decide
  obtain ⟨s, hs, hdelivered⟩ := Option.map_eq_some_iff.1 hrun
  refine ⟨s, hdelivered, (counted_once utc ?_).2⟩
  refine Machine.Reachable.foldlM ?_ (Machine.Reachable.of_init oneAlert_init) hs
  intro s ev t ht
  split at ht
  · next hsettled => exact ⟨hsettled, ht⟩
  · cases ht

/-- A digest that cannot be delivered, between two that are. -/
def lostEvents : List DigestEvent :=
  sweepEvents (eightOClock 0) true true ++
    alertEvent "n1" (eightOClock 0 + nsPerHour) :: sweepEvents (eightOClock 1) false true ++
      alertEvent "n2" (eightOClock 1 + nsPerHour) :: sweepEvents (eightOClock 2) true true

/-- Its notification is counted by no digest; and a digest whose watermark cannot be written is sent
twice within one hour. -/
theorem digest_lost_or_repeated :
    (∃ s, (digestMachine utc).Reachable s ∧ ∃ first last, ∃ n ∈ s.notifications,
      (digestsOf s.delivered (bytes "u")).head? = some first ∧
        (digestsOf s.delivered (bytes "u")).getLast? = some last ∧ n.isFor (bytes "u") ∧
          first.since < n.createdAt ∧ n.createdAt < rfc3339 last.now ∧
            timesCounted s.delivered (bytes "u") n = 0) ∧
    ∃ s, (digestMachine utc).Reachable s ∧
      s.delivered.map (fun d => (d.now, d.notifications)) =
        [(eightOClock 0, oneAlert.notifications),
          (eightOClock 0 + nsPerSecond, oneAlert.notifications)] := by
  constructor
  · have hrun : (lostEvents.foldlM (nextDigest utc) oneAlert).map (fun s =>
        ((digestsOf s.delivered (bytes "u")).head?.map Digest.since,
          (digestsOf s.delivered (bytes "u")).getLast?.map Digest.now,
            decide (alertFor "n1" (eightOClock 0 + nsPerHour) ∈ s.notifications),
              timesCounted s.delivered (bytes "u") (alertFor "n1" (eightOClock 0 + nsPerHour)))) =
        some (some (rfc3339 (eightOClock 0 - nsPerDay)), some (eightOClock 2), true, 0) := by
      decide
    obtain ⟨s, hs, hvalue⟩ := Option.map_eq_some_iff.1 hrun
    simp only [Prod.mk.injEq, Option.map_eq_some_iff, decide_eq_true_eq] at hvalue
    obtain ⟨⟨first, hfirst, hsince⟩, ⟨last, hlast, hnow⟩, hmem, hcount⟩ := hvalue
    refine ⟨s, (Machine.Reachable.of_init oneAlert_init).foldlM (fun _ _ _ h => h) hs, first, last,
      _, hmem, hfirst, hlast, ⟨rfl, List.mem_cons_self⟩, ?_, ?_, hcount⟩
    · rw [hsince]
      decide
    · rw [hnow]
      decide
  · have hrun : ((sweepEvents (eightOClock 0) true false ++
        sweepEvents (eightOClock 0 + nsPerSecond) true true).foldlM (nextDigest utc) oneAlert).map
          (fun s => s.delivered.map fun d => (d.now, d.notifications)) =
        some [(eightOClock 0, oneAlert.notifications),
          (eightOClock 0 + nsPerSecond, oneAlert.notifications)] := by
      decide
    obtain ⟨s, hs, hdelivered⟩ := Option.map_eq_some_iff.1 hrun
    exact ⟨s, (Machine.Reachable.of_init oneAlert_init).foldlM (fun _ _ _ h => h) hs, hdelivered⟩

end WiseLabz.Notify
