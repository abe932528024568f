/-
**The file of a report and its pending retries.**

The dispatcher of a notification attempts one channel after the other.  When an attempt fails that
carried the report's file, it stores the file for the retries and then records the delivery as
failed.  Meanwhile the retrier goes through the due deliveries, and releases the file of a
notification for which it finds none pending.  The two meet in the store only, call by call.

Main definitions:

* `Notify.State` — the deliveries, the stored files, and where each goroutine stands;
* `Notify.next` — **one step of a dispatcher or of the retrier**;
* `Notify.FileKept` — a pending delivery whose first attempt carried the file has its file;
* `Notify.Orderly` — the steps that do not take a file away between its check and the record.

Main results:

* `Notify.RetryInv.step` — an orderly step keeps the invariant;
* `Notify.file_outlives_retries` — **in an orderly run every pending retry has its file**;
* `Notify.release_between_check_and_record` — a release in between leaves a retry without its file.
-/

import WiseLabz.Lib.Bytes
import WiseLabz.Lib.Machine
import Mathlib.Data.List.Nodup
import Mathlib.Logic.Function.Basic

set_option relaxedAutoImplicit false
set_option autoImplicit false

namespace WiseLabz.Notify

open Lib

/-! ### Channels -/

/-- What an attempt looks at of a channel. -/
structure Channel where
  type : Bytes
  botToken : Bytes
  channelId : Bytes
  deriving DecidableEq, Repr

/-- `attachmentLimit`, in bytes; zero for a channel that carries no file. -/
def attachmentLimit (type : Bytes) : ℕ :=
  if type = bytes "smtp" then 10 * 2 ^ 20
  else if type = bytes "discord" then 8 * 2 ^ 20
  else if type = bytes "slack" then 50 * 2 ^ 20
  else if type = bytes "webhook" then 10 * 2 ^ 20
  else 0

/-- The keys of `channelSenders`. -/
def supportedChannels : List Bytes :=
  [bytes "smtp", bytes "webhook", bytes "discord", bytes "slack", bytes "ntfy", bytes "telegram",
    bytes "gotify", bytes "pushover", bytes "matrix", bytes "apprise"]

/-- `canRetryFile`. -/
def canRetryFile (c : Channel) : Bool :=
  c.type ≠ bytes "slack" || (c.botToken ≠ [] && c.channelId ≠ [])

/-- Whether an attempt carries a file of this size. -/
def carriesFile (attachment : Option ℕ) (c : Channel) : Bool :=
  match attachment with
  | none => false
  | some size => 0 < attachmentLimit c.type && size ≤ attachmentLimit c.type && canRetryFile c

/-! ### States -/

/-- A row of the deliveries table. -/
structure Delivery where
  id : Bytes
  notificationId : Bytes
  channel : Bytes
  /-- `failed`, or else `sent`. -/
  failed : Bool
  attempts : ℕ
  /-- In seconds; NULL when there is no further attempt. -/
  nextAttemptAt : Option ℕ
  /-- Not a column: whether the first attempt carried the file. -/
  carried : Bool
  deriving DecidableEq, Repr

/-- A failed delivery with a next attempt. -/
def Delivery.Pending (d : Delivery) : Prop := d.failed = true ∧ d.nextAttemptAt ≠ none

instance (d : Delivery) : Decidable d.Pending := inferInstanceAs (Decidable (_ ∧ _))

/-- Where the dispatcher of a notification stands. -/
inductive DispatchPc
  /-- Before the attempt of a channel. -/
  | idle
  /-- In `persistNotificationFile`, before the file is looked up. -/
  | check (c : Channel)
  /-- In `persistNotificationFile`, before the file is stored. -/
  | put (c : Channel)
  /-- Before `recordDelivery`. -/
  | record (c : Channel) (failed carried : Bool)
  deriving DecidableEq, Repr

/-- The outcome of a retry. -/
inductive Outcome
  | sent
  | failed
  /-- The notification is gone or the channel no longer supported. -/
  | terminal
  deriving DecidableEq, Repr

/-- Where the retrier stands in its loop over the due deliveries. -/
inductive RetrierPc
  | idle
  | due (rest : List Delivery)
  /-- After a retry, before `UpdateDeliveryResult`. -/
  | result (d : Delivery) (o : Outcome) (rest : List Delivery)
  /-- In `releaseNotificationFileIfDone`, before the check for pending retries. -/
  | pending (notificationId : Bytes) (rest : List Delivery)
  /-- In `releaseNotificationFileIfDone`, before the deletion of the file. -/
  | delete (notificationId : Bytes) (rest : List Delivery)
  deriving DecidableEq, Repr

/-- The configuration: whether there is a blob store, and the size of each notification's file. -/
structure Env where
  blobs : Bool
  attachment : Bytes → Option ℕ

structure State where
  deliveries : List Delivery
  /-- The notifications with a row in `notification_files`. -/
  files : List Bytes
  dispatch : Bytes → DispatchPc
  retrier : RetrierPc

/-! ### Steps -/

/-- `retrySchedule`, in seconds. -/
def retrySchedule : List ℕ := [60, 300, 900, 1800, 3600]

def maxDeliveryAttempts : ℕ := 5

def dueDeliveriesLimit : ℕ := 50

/-- The steps of the goroutines; `ok` tells whether a call succeeds. -/
inductive Event
  /-- The dispatcher of a notification attempts a channel. -/
  | attempt (n : Bytes) (c : Channel) (ok : Bool)
  /-- `GetNotificationFile`. -/
  | getFile (n : Bytes) (ok : Bool)
  /-- `PutGenerated` and `PutNotificationFile`. -/
  | putFile (n : Bytes) (ok : Bool)
  /-- `CreateDelivery`, with a new id. -/
  | createDelivery (n id : Bytes) (now : ℕ) (ok : Bool)
  /-- `ListDueDeliveries`. -/
  | tick (now : ℕ)
  /-- The retrier retries the next delivery. -/
  | retry (o : Outcome)
  /-- `UpdateDeliveryResult`. -/
  | update (now : ℕ) (ok : Bool)
  /-- `HasPendingDeliveryRetry`. -/
  | hasPending (ok : Bool)
  /-- `DeleteNotificationFile`. -/
  | deleteFile (ok : Bool)

/-- The row that `recordDelivery` creates. -/
def newDelivery (n id : Bytes) (c : Channel) (failed carried : Bool) (now : ℕ) : Delivery where
  id := id
  notificationId := n
  channel := c.type
  failed := failed
  attempts := 1
  nextAttemptAt := if failed then some (now + retrySchedule.headD 0) else none
  carried := carried

/-- The row of a delivery after a retry. -/
def Delivery.retried (d : Delivery) (o : Outcome) (now : ℕ) (r : Delivery) : Delivery :=
  match o with
  | .sent => { r with failed := false, attempts := d.attempts + 1, nextAttemptAt := none }
  | .failed =>
      { r with
        failed := true
        attempts := d.attempts + 1
        nextAttemptAt :=
          if d.attempts + 1 < maxDeliveryAttempts then some (now + retrySchedule.getD d.attempts 0)
          else none }
  | .terminal => { r with failed := true, attempts := d.attempts, nextAttemptAt := none }

/-- `ListDueDeliveries`: soonest first. -/
def dueDeliveries (s : State) (now : ℕ) : List Delivery :=
  ((s.deliveries.filter fun d => d.failed && d.nextAttemptAt.any (· ≤ now)).mergeSort
    fun d d' => d.nextAttemptAt.getD 0 ≤ d'.nextAttemptAt.getD 0).take dueDeliveriesLimit

/-- **One step**, if the goroutine stands where it is taken. -/
def next (env : Env) (s : State) : Event → Option State
  | .attempt n c ok =>
      match s.dispatch n with
      | .idle =>
          let pc :=
            if c.type ∉ supportedChannels then .record c true false
            else if ok then .record c false false
            else if carriesFile (env.attachment n) c then
              if env.blobs then .check c else .record c true true
            else .record c true false
          some { s with dispatch := Function.update s.dispatch n pc }
      | _ => none
  | .getFile n ok =>
      match s.dispatch n with
      | .check c =>
          -- an error of the lookup counts as no file
          let pc := if ok ∧ n ∈ s.files then .record c true true else .put c
          some { s with dispatch := Function.update s.dispatch n pc }
      | _ => none
  | .putFile n ok =>
      match s.dispatch n with
      | .put c =>
          some { s with
            files := if ok ∧ n ∉ s.files then s.files ++ [n] else s.files
            dispatch := Function.update s.dispatch n (.record c true true) }
      | _ => none
  | .createDelivery n id now ok =>
      match s.dispatch n with
      | .record c failed carried =>
          some { s with
            deliveries :=
              if ok ∧ ¬ s.deliveries.any (fun d => d.id = id) then
                s.deliveries ++ [newDelivery n id c failed carried now]
              else s.deliveries
            dispatch := Function.update s.dispatch n .idle }
      | _ => none
  | .tick now =>
      match s.retrier with
      | .idle => some { s with retrier := .due (dueDeliveries s now) }
      | .due [] => some { s with retrier := .due (dueDeliveries s now) }
      | _ => none
  | .retry o =>
      match s.retrier with
      | .due (d :: rest) => some { s with retrier := .result d o rest }
      | _ => none
  | .update now ok =>
      match s.retrier with
      | .result d o rest =>
          some { s with
            deliveries :=
              if ok then s.deliveries.map fun r => if r.id = d.id then d.retried o now r else r
              else s.deliveries
            retrier := if ok ∨ o = .terminal then .pending d.notificationId rest else .due rest }
      | _ => none
  | .hasPending ok =>
      match s.retrier with
      | .pending n rest =>
          some { s with
            retrier :=
              if ok ∧ ¬ s.deliveries.any (fun d => d.notificationId = n && d.Pending) then .delete n rest
              else .due rest }
      | _ => none
  | .deleteFile ok =>
      match s.retrier with
      | .delete n rest =>
          some { s with
            files := if ok then s.files.filter (· ≠ n) else s.files
            retrier := .due rest }
      | _ => none

/-- Dispatchers and the retrier, in any interleaving of their steps. -/
def retryMachine (env : Env) : Machine State Event where
  init s := s.deliveries = [] ∧ s.files = [] ∧ (∀ n, s.dispatch n = .idle) ∧ s.retrier = .idle
  step s ev t := next env s ev = some t

/-! ### The invariant -/

/-- **A pending delivery whose first attempt carried the file has its file.** -/
def FileKept (s : State) : Prop :=
  ∀ d ∈ s.deliveries, d.Pending → d.carried = true → d.notificationId ∈ s.files

/-- The deliveries that the retrier has yet to update. -/
def RetrierPc.remaining : RetrierPc → List Delivery
  | .idle => []
  | .due rest => rest
  | .result d _ rest => d :: rest
  | .pending _ rest => rest
  | .delete _ rest => rest

/-- **The steps that keep files**: there is a blob store when an attempt with the file fails, the
file is stored when it has to be, and it is not deleted while a delivery of its notification is
pending that carried it, nor between the check for the file and the record of such a delivery. -/
def Orderly (env : Env) (s : State) : Event → Prop
  | .attempt n c ok => ok = false → carriesFile (env.attachment n) c = true → env.blobs = true
  | .putFile _ ok => ok = true
  | .deleteFile _ => ∀ n rest, s.retrier = .delete n rest →
      (∀ d ∈ s.deliveries, d.notificationId = n → d.carried = true → ¬ d.Pending) ∧
        ∀ c, s.dispatch n ≠ .record c true true
  | _ => True

/-- **The invariant**: besides kept files, a dispatcher that is about to record a delivery with the
file has stored it, and the deliveries that the retrier has yet to update are pending rows. -/
structure RetryInv (s : State) : Prop where
  kept : FileKept s
  stored : ∀ n c, s.dispatch n = .record c true true → n ∈ s.files
  ids : (s.deliveries.map Delivery.id).Nodup
  remaining_ids : (s.retrier.remaining.map Delivery.id).Nodup
  remaining : ∀ d ∈ s.retrier.remaining, ∃ r ∈ s.deliveries, r.id = d.id ∧ r.Pending

section Steps

variable {env : Env} {s t : State}

/-- A dispatcher goes on, and files are at most added. -/
theorem RetryInv.dispatch (h : RetryInv s) {n : Bytes} {pc : DispatchPc} {files : List Bytes}
    (hfiles : ∀ m ∈ s.files, m ∈ files) (hpc : ∀ c, pc = .record c true true → n ∈ files) :
    RetryInv { s with files := files, dispatch := Function.update s.dispatch n pc } where
  kept d hd hpending hcarried := hfiles _ (h.kept d hd hpending hcarried)
  stored m c hm := by
    by_cases hmn : m = n
    · have hpc' : Function.update s.dispatch n pc m = .record c true true := hm
      rw [hmn, Function.update_self] at hpc'
      rw [hmn]
      exact hpc c hpc'
    · have hpc' : Function.update s.dispatch n pc m = .record c true true := hm
      rw [Function.update_of_ne hmn] at hpc'
      exact hfiles m (h.stored m c hpc')
  ids := h.ids
  remaining_ids := h.remaining_ids
  remaining := h.remaining

/-- The retrier goes on with the deliveries that remain. -/
theorem RetryInv.retrier (h : RetryInv s) {pc : RetrierPc}
    (hpc : pc.remaining.Sublist s.retrier.remaining) : RetryInv { s with retrier := pc } where
  kept := h.kept
  stored := h.stored
  ids := h.ids
  remaining_ids := h.remaining_ids.sublist (hpc.map _)
  remaining d hd := h.remaining d (hpc.subset hd)

/-- A delivery is recorded. -/
theorem RetryInv.create (h : RetryInv s) {n id : Bytes} {c : Channel} {failed carried : Bool}
    {now : ℕ} (hpc : s.dispatch n = .record c failed carried)
    (hid : ∀ d ∈ s.deliveries, d.id ≠ id) :
    RetryInv { s with deliveries := s.deliveries ++ [newDelivery n id c failed carried now] } where
  kept d hd hpending hcarried := by
    rcases List.mem_append.1 hd with hd | hd
    · exact h.kept d hd hpending hcarried
    · rw [List.mem_singleton.1 hd] at hpending hcarried ⊢
      have hfailed : failed = true := hpending.1
      have hcarried' : carried = true := hcarried
      exact h.stored n c (by rw [hpc, hfailed, hcarried'])
  stored := h.stored
  ids := by
    rw [List.map_append, List.nodup_append]
    refine ⟨h.ids, List.nodup_singleton _, ?_⟩
    intro a ha b hb
    obtain ⟨d, hd, rfl⟩ := List.mem_map.1 ha
    rw [List.map_singleton, List.mem_singleton] at hb
    exact hb ▸ hid d hd
  remaining_ids := h.remaining_ids
  remaining d hd := by
    obtain ⟨r, hr, hrow⟩ := h.remaining d hd
    exact ⟨r, List.mem_append_left _ hr, hrow⟩

theorem Delivery.retried_id (d : Delivery) (o : Outcome) (now : ℕ) (r : Delivery) :
    (d.retried o now r).id = r.id := by
  cases o <;> rfl

theorem Delivery.retried_notificationId (d : Delivery) (o : Outcome) (now : ℕ) (r : Delivery) :
    (d.retried o now r).notificationId = r.notificationId := by
  cases o <;> rfl

theorem Delivery.retried_carried (d : Delivery) (o : Outcome) (now : ℕ) (r : Delivery) :
    (d.retried o now r).carried = r.carried := by
  cases o <;> rfl

/-- The result of a retry is stored: the row was pending, so its file is there if it carried one. -/
theorem RetryInv.update (h : RetryInv s) {d : Delivery} {o : Outcome} {rest : List Delivery}
    {pc : RetrierPc} {now : ℕ} (hretrier : s.retrier = .result d o rest) (hpc : pc.remaining = rest) :
    RetryInv { s with
      deliveries := s.deliveries.map fun r => if r.id = d.id then d.retried o now r else r
      retrier := pc } := by
  have hremaining : s.retrier.remaining = d :: rest := by rw [hretrier, RetrierPc.remaining]
  have hids := h.remaining_ids
  rw [hremaining, List.map_cons, List.nodup_cons] at hids
  have hpending : ∀ r ∈ s.deliveries, r.id = d.id → r.Pending := by
    intro r hr hid
    obtain ⟨r', hr', hid', hp⟩ := h.remaining d (by rw [hremaining]; exact List.mem_cons_self)
    rwa [List.inj_on_of_nodup_map h.ids hr hr' (hid.trans hid'.symm)]
  constructor
  · intro r hr hp hcarried
    obtain ⟨a, ha, rfl⟩ := List.mem_map.1 hr
    by_cases hid : a.id = d.id
    · rw [if_pos hid] at hcarried ⊢
      rw [Delivery.retried_carried] at hcarried
      rw [Delivery.retried_notificationId]
      exact h.kept a ha (hpending a ha hid) hcarried
    · rw [if_neg hid] at hp hcarried ⊢
      exact h.kept a ha hp hcarried
  · exact h.stored
  · rw [List.map_map]
    refine (List.map_congr_left fun r _ => ?_) ▸ h.ids
    show r.id = (if r.id = d.id then d.retried o now r else r).id
    split
    · exact (Delivery.retried_id d o now r).symm
    · rfl
  · show (pc.remaining.map Delivery.id).Nodup
    rw [hpc]
    exact hids.2
  · intro d' hd'
    have hrest : d' ∈ rest := hpc ▸ hd'
    obtain ⟨r, hr, hid, hp⟩ := h.remaining d' (by rw [hremaining]; exact List.mem_cons_of_mem _ hrest)
    have hne : r.id ≠ d.id := fun heq => hids.1 (heq ▸ hid ▸ List.mem_map_of_mem hrest)
    exact ⟨r, List.mem_map.2 ⟨r, hr, if_neg hne⟩, hid, hp⟩

/-- The due deliveries are pending rows. -/
theorem RetryInv.tick (h : RetryInv s) (now : ℕ) :
    RetryInv { s with retrier := .due (dueDeliveries s now) } := by
  have hmem : ∀ d ∈ dueDeliveries s now, d ∈ s.deliveries ∧ d.Pending := by
    intro d hd
    have hd' := List.mem_of_mem_take hd
    rw [List.mem_mergeSort, List.mem_filter, Bool.and_eq_true] at hd'
    refine ⟨hd'.1, hd'.2.1, fun hnone => ?_⟩
    have hdue := hd'.2.2
    rw [hnone] at hdue
    cases hdue
  refine ⟨h.kept, h.stored, h.ids, ?_, fun d hd => ?_⟩
  · show ((dueDeliveries s now).map Delivery.id).Nodup
    have hfilter := h.ids.sublist (List.Sublist.map Delivery.id
      (List.filter_sublist (p := fun d => d.failed && d.nextAttemptAt.any (· ≤ now))))
    have hsorted := ((List.mergeSort_perm _ fun d d' : Delivery =>
      d.nextAttemptAt.getD 0 ≤ d'.nextAttemptAt.getD 0).map Delivery.id).nodup_iff.2 hfilter
    exact hsorted.sublist ((List.take_sublist _ _).map _)
  · obtain ⟨hrow, hp⟩ := hmem d hd
    exact ⟨d, hrow, rfl, hp⟩

/-- **An orderly step keeps the invariant.** -/
theorem RetryInv.step (h : RetryInv s) {ev : Event} (horderly : Orderly env s ev)
    (hstep : next env s ev = some t) : RetryInv t := by
  cases ev with
  | attempt n c ok =>
      rw [next] at hstep
      split at hstep
      · obtain rfl := Option.some.inj hstep
        refine h.dispatch (fun _ hm => hm) fun c' hpc => ?_
        split at hpc
        · cases hpc
        · split at hpc
          · cases hpc
          · next hok =>
              split at hpc
              · next hcarries =>
                  split at hpc
                  · cases hpc
                  · next hblobs => exact absurd (horderly (by simpa using hok) hcarries) hblobs
              · cases hpc
      · cases hstep
  | getFile n ok =>
      rw [next] at hstep
      split at hstep
      · obtain rfl := Option.some.inj hstep
        refine h.dispatch (fun _ hm => hm) fun c' hpc => ?_
        split at hpc
        · next hfound => exact hfound.2
        · cases hpc
      · cases hstep
  | putFile n ok =>
      have hok : ok = true := horderly
      rw [next] at hstep
      split at hstep
      · obtain rfl := Option.some.inj hstep
        refine h.dispatch (fun m hm => ?_) fun c' _ => ?_
        · split
          · exact List.mem_append_left _ hm
          · exact hm
        · by_cases hn : n ∈ s.files
          · rw [if_neg (by simp [hn])]
            exact hn
          · rw [if_pos ⟨hok, hn⟩]
            exact List.mem_append_right _ (List.mem_singleton.2 rfl)
      · cases hstep
  | createDelivery n id now ok =>
      rw [next] at hstep
      split at hstep
      · next c failed carried hpc =>
          obtain rfl := Option.some.inj hstep
          split
          · next hcreate =>
              have hnew : ∀ d ∈ s.deliveries, d.id ≠ id := by
                intro d hd hid
                exact hcreate.2 (List.any_eq_true.2 ⟨d, hd, decide_eq_true hid⟩)
              exact (h.create hpc hnew).dispatch (fun _ hm => hm) (by simp)
          · exact h.dispatch (fun _ hm => hm) (by simp)
      · cases hstep
  | tick now =>
      rw [next] at hstep
      split at hstep
      · obtain rfl := Option.some.inj hstep
        exact h.tick now
      · obtain rfl := Option.some.inj hstep
        exact h.tick now
      · cases hstep
  | retry o =>
      rw [next] at hstep
      split at hstep
      · next hpc =>
          obtain rfl := Option.some.inj hstep
          exact h.retrier (by rw [hpc]; exact List.Sublist.refl _)
      · cases hstep
  | update now ok =>
      rw [next] at hstep
      split at hstep
      · next d o rest hpc =>
          obtain rfl := Option.some.inj hstep
          have hremaining : ∀ p : Prop, [Decidable p] → ((if p then RetrierPc.pending
              d.notificationId rest else .due rest).remaining = rest) := by
            intro p _
            split <;> rfl
          cases ok with
          | true => exact h.update hpc (hremaining _)
          | false =>
              refine h.retrier ?_
              rw [hremaining, hpc]
              exact List.sublist_cons_self _ _
      · cases hstep
  | hasPending ok =>
      rw [next] at hstep
      split at hstep
      · next hpc =>
          obtain rfl := Option.some.inj hstep
          refine h.retrier ?_
          rw [hpc]
          split <;> exact List.Sublist.refl _
      · cases hstep
  | deleteFile ok =>
      rw [next] at hstep
      split at hstep
      · next n rest hpc =>
          obtain rfl := Option.some.inj hstep
          obtain ⟨hpending, hrecord⟩ := horderly n rest hpc
          have hretrier : RetryInv { s with retrier := .due rest } :=
            h.retrier (by rw [hpc]; exact List.Sublist.refl _)
          cases ok with
          | false => exact hretrier
          | true =>
              refine ⟨fun d hd hp hcarried => ?_, fun m c hm => ?_, h.ids, hretrier.remaining_ids,
                hretrier.remaining⟩
              · refine List.mem_filter.2 ⟨h.kept d hd hp hcarried, decide_eq_true fun heq => ?_⟩
                exact hpending d hd heq hcarried hp
              · refine List.mem_filter.2 ⟨h.stored m c hm, decide_eq_true fun heq => ?_⟩
                exact hrecord c (heq ▸ hm)
      · cases hstep

theorem retryInv_init (env : Env) {s : State} (h : (retryMachine env).init s) : RetryInv s := by
  obtain ⟨hdeliveries, hfiles, hdispatch, hretrier⟩ := h
  refine ⟨?_, ?_, ?_, ?_, ?_⟩
  · intro d hd
    simp [hdeliveries] at hd
  · intro n c hpc
    rw [hdispatch] at hpc
    cases hpc
  · simp [hdeliveries]
  · simp [hretrier, RetrierPc.remaining]
  · intro d hd
    simp [hretrier, RetrierPc.remaining] at hd

end Steps

/-- **In an orderly run every pending retry has its file**: in every state reached by steps that all
keep files, a pending delivery whose first attempt carried the file has its file. -/
theorem file_outlives_retries (env : Env) (t : State)
    (h : ((retryMachine env).restrict (Orderly env)).Reachable t) : FileKept t := by
  have hinit : ∀ s, ((retryMachine env).restrict (Orderly env)).init s → RetryInv s :=
    fun s hs => retryInv_init env hs
  have hstep : ∀ s ev t, RetryInv s → ((retryMachine env).restrict (Orderly env)).step s ev t →
      RetryInv t := by
    intro s ev t hs hstep
    obtain ⟨horderly, hnext⟩ := Machine.restrict_step.1 hstep
    exact hs.step horderly hnext
  have hinv : RetryInv t := h.invariant hinit hstep
  exact hinv.kept

/-! ### A release in between -/

def sampleEnv : Env := ⟨true, fun _ => some 1000⟩

def startState : State := ⟨[], [], fun _ => .idle, .idle⟩

def webhook : Channel := ⟨bytes "webhook", [], []⟩

def email : Channel := ⟨bytes "smtp", [], []⟩

/-- The record of a failed attempt is pending, and its file is there. -/
theorem file_outlives_retries_sample :
    ∃ t, FileKept t ∧ (t.deliveries.map fun d => (d.id, decide d.Pending, d.carried)) =
      [(bytes "1", true, true)] := by
  have hstart : ((retryMachine sampleEnv).restrict (Orderly sampleEnv)).Reachable startState :=
    Machine.Reachable.of_init ⟨rfl, rfl, fun _ => rfl, rfl⟩
  have ho : Orderly sampleEnv startState (.attempt (bytes "n") email false) := fun _ _ => rfl
  have h₁ := hstart.step (Machine.restrict_step.2 ⟨ho, rfl⟩)
  have h₂ := h₁.step (a := Event.getFile (bytes "n") true) (Machine.restrict_step.2 ⟨trivial, rfl⟩)
  have h₃ := h₂.step (a := Event.putFile (bytes "n") true) (Machine.restrict_step.2 ⟨rfl, rfl⟩)
  have h₄ := h₃.step (a := Event.createDelivery (bytes "n") (bytes "1") 0 true)
    (Machine.restrict_step.2 ⟨trivial, rfl⟩)
  exact ⟨_, file_outlives_retries sampleEnv _ h₄, by decide⟩

/-- The email's attempt fails with the file, and the webhook's then finds the file stored; the
retrier retries the email's delivery, finds nothing pending and deletes the file, and only then the
webhook's delivery is recorded. -/
def releaseInBetween : List Event :=
  [.attempt (bytes "n") email false, .getFile (bytes "n") true, .putFile (bytes "n") true,
    .createDelivery (bytes "n") (bytes "1") 0 true, .attempt (bytes "n") webhook false,
    .getFile (bytes "n") true, .tick 60, .retry .sent, .update 60 true, .hasPending true,
    .deleteFile true, .createDelivery (bytes "n") (bytes "2") 61 true]

/-- **A release in between leaves a retry without its file.** -/
theorem release_between_check_and_record :
    ∃ t, releaseInBetween.foldlM (next sampleEnv) startState = some t ∧ ¬ FileKept t := by
  have hrun : (releaseInBetween.foldlM (next sampleEnv) startState).map
      (fun t => (t.deliveries.map Delivery.id, t.files)) = some ([bytes "1", bytes "2"], []) := by
    decide +kernel
  have hrow : (releaseInBetween.foldlM (next sampleEnv) startState).map
      (fun t => decide (newDelivery (bytes "n") (bytes "2") webhook true true 61 ∈ t.deliveries)) =
        some true := by
    decide +kernel
  obtain ⟨t, ht, hfiles⟩ := Option.map_eq_some_iff.1 hrun
  rw [ht, Option.map_some, Option.some.injEq, decide_eq_true_eq] at hrow
  refine ⟨t, ht, fun h => ?_⟩
  have hkept := h _ hrow (by decide) rfl
  rw [(Prod.mk.inj hfiles).2] at hkept
  exact List.not_mem_nil hkept

end WiseLabz.Notify
