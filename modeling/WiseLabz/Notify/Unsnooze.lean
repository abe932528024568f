/-
**Which alerts are announced when their snooze has expired.**

The job lists the snoozed alerts whose time has passed, moves those alerts back to pending in one
statement, which selects them again at a later time, and announces the list if any alert was moved.
So the list is right where no deadline lies between the two times and nobody writes the alerts
meanwhile.

Main definitions:

* `Notify.Alert`, `Notify.AlertRun` — an alert, and where a run of the job stands;
* `Notify.nextAlerts` — **one step of a run, or of a user**;
* `Notify.undisturbed` — the condition on a step: the two times, and what was written between.

Main results:

* `Notify.Listed.right` — an undisturbed run moves what it has listed;
* `Notify.announced_of_undisturbed` — **every alert that is moved is announced, and no other**.
-/

import WiseLabz.Lib.Bytes
import WiseLabz.Lib.Machine
import WiseLabz.Lib.Threads

set_option relaxedAutoImplicit false
set_option autoImplicit false

namespace WiseLabz.Notify

open Lib

/-! ### Alerts -/

structure Alert where
  id : Bytes
  status : Bytes
  snoozedUntil : Option Bytes
  deriving DecidableEq, Repr

/-- Snoozed, until a time that has passed; the times are compared as texts. -/
def Alert.expired (a : Alert) (now : Bytes) : Bool :=
  a.status = bytes "snoozed" && a.snoozedUntil.any fun t => decide (t ≤ now)

/-- `GetExpiredSnoozedAlerts`. -/
def getExpiredSnoozedAlerts (alerts : List Alert) (now : Bytes) : List Alert :=
  alerts.filter fun a => a.expired now

/-- `UnsnoozeExpiredAlerts`: the alerts after it, and those that it moves. -/
def unsnoozeExpiredAlerts (alerts : List Alert) (now : Bytes) : List Alert × List Bytes :=
  (alerts.map fun a => if a.expired now then { a with status := bytes "pending" } else a,
    (alerts.filter fun a => a.expired now).map Alert.id)

/-- `UpdateAlertStatus`. -/
def updateAlertStatus (alerts : List Alert) (id status snoozedUntil : Bytes) : List Alert :=
  alerts.map fun a =>
    if a.id = id then
      { a with
        status := status
        snoozedUntil := if snoozedUntil ≠ [] then some snoozedUntil else a.snoozedUntil }
    else a

/-- `UpdateAlertStatuses`. -/
def updateAlertStatuses (alerts : List Alert) (ids : List Bytes) (status snoozedUntil : Bytes) :
    List Alert :=
  alerts.map fun a =>
    if a.id ∈ ids then { a with status := status, snoozedUntil := some snoozedUntil } else a

/-! ### Runs -/

/-- Where a run of `expireAlertsOnce` stands; the alerts it has moved are not a variable of it. -/
inductive AlertRun
  | begun
  /-- The alerts are listed, at the time `read` and after `writes` of the writes. -/
  | listed (expired : List Alert) (read : Bytes) (writes : ℕ)
  /-- Some alerts were moved. -/
  | unsnoozed (expired : List Alert) (moved : List Bytes)
  /-- Ended, after the alerts of the list were passed to `NotifyAlertsCreated`. -/
  | done (announced moved : List Bytes)
  deriving DecidableEq, Repr

structure AlertState where
  alerts : List Alert
  runs : List AlertRun
  /-- The alerts that were created, updated, moved or deleted, in order. -/
  written : List Bytes
  deriving DecidableEq, Repr

inductive AlertEvent
  | create (a : Alert)
  | update (id status snoozedUntil : Bytes)
  | updateAll (ids : List Bytes) (status snoozedUntil : Bytes)
  /-- The alerts of what is deleted are deleted with it. -/
  | delete (ids : List Bytes)
  | begin
  | list (i : ℕ) (now : Bytes)
  | unsnooze (i : ℕ) (now : Bytes)
  | announce (i : ℕ)
  /-- A run ends with an error of the store. -/
  | fail (i : ℕ)
  deriving DecidableEq, Repr

/-- **One step**; the readings of the clock are arbitrary. -/
def nextAlerts (s : AlertState) : AlertEvent → Option AlertState
  | .create a =>
      if s.alerts.all fun a' => a'.id ≠ a.id then
        some { s with alerts := s.alerts ++ [a], written := s.written ++ [a.id] }
      else none
  | .update id status snoozedUntil =>
      some { s with
        alerts := updateAlertStatus s.alerts id status snoozedUntil
        written := s.written ++ [id] }
  | .updateAll ids status snoozedUntil =>
      some { s with
        alerts := updateAlertStatuses s.alerts ids status snoozedUntil
        written := s.written ++ ids }
  | .delete ids =>
      some { s with alerts := s.alerts.filter fun a => a.id ∉ ids, written := s.written ++ ids }
  | .begin => some { s with runs := s.runs ++ [.begun] }
  | .list i now =>
      match s.runs[i]? with
      | some .begun =>
          let expired := getExpiredSnoozedAlerts s.alerts now
          some { s with
            runs := s.runs.set i
              (if expired = [] then .done [] [] else .listed expired now s.written.length) }
      | _ => none
  | .unsnooze i now =>
      match s.runs[i]? with
      | some (.listed expired _ _) =>
          let (alerts, moved) := unsnoozeExpiredAlerts s.alerts now
          some
            { alerts := alerts
              runs := s.runs.set i (if moved = [] then .done [] [] else .unsnoozed expired moved)
              written := s.written ++ moved }
      | _ => none
  | .announce i =>
      match s.runs[i]? with
      | some (.unsnoozed expired moved) =>
          some { s with runs := s.runs.set i (.done (expired.map Alert.id) moved) }
      | _ => none
  | .fail i =>
      match s.runs[i]? with
      | some .begun | some (.listed _ _ _) => some { s with runs := s.runs.set i (.done [] []) }
      | _ => none

/-- The alerts, whatever they are, before the first run. -/
def alertMachine : Machine AlertState AlertEvent where
  init s := s.runs = []
  step s ev t := nextAlerts s ev = some t

/-- **A run announces the alerts that it moves**, and no other. -/
def AlertRun.Right : AlertRun → Prop
  | .unsnoozed expired moved => ∀ id, id ∈ moved ↔ id ∈ expired.map Alert.id
  | .done announced moved => ∀ id, id ∈ moved ↔ id ∈ announced
  | _ => True

/-- **The condition on a step**: where a run moves alerts, no deadline lies between its two readings
of the clock, and since its list nobody has written an alert that it has listed or that is due. -/
def undisturbed (s : AlertState) : AlertEvent → Bool
  | .unsnooze i now =>
      match s.runs[i]? with
      | some (.listed expired read writes) =>
          getExpiredSnoozedAlerts s.alerts now = [] ||
            (s.alerts.all fun a => a.expired read = a.expired now) &&
              (s.written.drop writes).all fun id =>
                id ∉ expired.map Alert.id && s.alerts.all fun a => a.id ≠ id || !a.expired now
      | _ => true
  | _ => true

/-! ### What is written between -/

theorem mem_unsnoozed {alerts : List Alert} {now id : Bytes} :
    id ∈ (unsnoozeExpiredAlerts alerts now).2 ↔ ∃ a ∈ alerts, a.id = id ∧ a.expired now = true := by
  simp only [unsnoozeExpiredAlerts, List.mem_map, List.mem_filter]
  constructor
  · rintro ⟨a, ⟨ha, hexpired⟩, hid⟩
    exact ⟨a, ha, hid, hexpired⟩
  · rintro ⟨a, ha, hid, hexpired⟩
    exact ⟨a, ⟨ha, hexpired⟩, hid⟩

/-- The alerts other than `ids` are the same. -/
def SameBut (ids : List Bytes) (alerts alerts' : List Alert) : Prop :=
  ∀ a : Alert, a.id ∉ ids → (a ∈ alerts' ↔ a ∈ alerts)

/-- A statement that sets columns of some alerts writes no other. -/
theorem sameBut_map {alerts : List Alert} {ids : List Bytes} {f : Alert → Alert}
    (hid : ∀ a, (f a).id = a.id) (hf : ∀ a ∈ alerts, a.id ∉ ids → f a = a) :
    SameBut ids alerts (alerts.map f) := by
  intro a hids
  rw [List.mem_map]
  constructor
  · rintro ⟨b, hb, rfl⟩
    rw [hid] at hids
    rwa [hf b hb hids]
  · exact fun ha => ⟨a, ha, hf a ha hids⟩

theorem sameBut_updateAlertStatus {alerts : List Alert} {id status snoozedUntil : Bytes} :
    SameBut [id] alerts (updateAlertStatus alerts id status snoozedUntil) := by
  refine sameBut_map (fun a => ?_) fun a _ hids => if_neg (by simpa using hids)
  split <;> rfl

theorem sameBut_updateAlertStatuses {alerts : List Alert} {ids : List Bytes}
    {status snoozedUntil : Bytes} :
    SameBut ids alerts (updateAlertStatuses alerts ids status snoozedUntil) := by
  refine sameBut_map (fun a => ?_) fun a _ hids => if_neg hids
  split <;> rfl

theorem sameBut_unsnoozeExpiredAlerts {alerts : List Alert} {now : Bytes} :
    SameBut (unsnoozeExpiredAlerts alerts now).2 alerts (unsnoozeExpiredAlerts alerts now).1 := by
  refine sameBut_map (fun a => ?_) fun a ha hids => if_neg fun hexpired => ?_
  · split <;> rfl
  · exact hids (mem_unsnoozed.2 ⟨a, ha, rfl, hexpired⟩)

theorem sameBut_delete {alerts : List Alert} {ids : List Bytes} :
    SameBut ids alerts (alerts.filter fun a => a.id ∉ ids) := fun a hids => by
  rw [List.mem_filter, decide_eq_true_eq]
  exact and_iff_left hids

theorem sameBut_create {alerts : List Alert} (a : Alert) :
    SameBut [a.id] alerts (alerts ++ [a]) := by
  intro b hid
  rw [List.mem_append, List.mem_singleton]
  refine or_iff_left ?_
  rintro rfl
  exact hid (List.mem_singleton.2 rfl)

/-! ### A run between its list and its move -/

/-- **What a list says later**: of the alerts that were not written since, those are due at its time
that it has. -/
structure Listed (s : AlertState) (expired : List Alert) (read : Bytes) (writes : ℕ) : Prop where
  past : writes ≤ s.written.length
  due : ∀ id ∉ s.written.drop writes,
    (id ∈ expired.map Alert.id ↔ ∃ a ∈ s.alerts, a.id = id ∧ a.expired read = true)

theorem Listed.list (s : AlertState) (now : Bytes) :
    Listed s (getExpiredSnoozedAlerts s.alerts now) now s.written.length := by
  refine ⟨le_refl _, fun id _ => ?_⟩
  simp only [getExpiredSnoozedAlerts, List.mem_map, List.mem_filter]
  constructor
  · rintro ⟨a, ⟨ha, hexpired⟩, hid⟩
    exact ⟨a, ha, hid, hexpired⟩
  · rintro ⟨a, ha, hid, hexpired⟩
    exact ⟨a, ⟨ha, hexpired⟩, hid⟩

/-- **A write** leaves what the list says of the other alerts. -/
theorem Listed.write {s : AlertState} {expired : List Alert} {read : Bytes} {writes : ℕ}
    (h : Listed s expired read writes) {ids : List Bytes} {alerts : List Alert}
    (hsame : SameBut ids s.alerts alerts) (runs : List AlertRun) :
    Listed ⟨alerts, runs, s.written ++ ids⟩ expired read writes := by
  refine ⟨h.past.trans (by simp), fun id hid => ?_⟩
  rw [List.drop_append_of_le_length h.past, List.mem_append, not_or] at hid
  rw [h.due id hid.1]
  constructor
  · rintro ⟨a, ha, rfl, hexpired⟩
    exact ⟨a, (hsame a hid.2).2 ha, rfl, hexpired⟩
  · rintro ⟨a, ha, rfl, hexpired⟩
    exact ⟨a, (hsame a hid.2).1 ha, rfl, hexpired⟩

/-- **An undisturbed run moves what it has listed**, or nothing. -/
theorem Listed.right {s : AlertState} {expired : List Alert} {read now : Bytes} {writes i : ℕ}
    (h : Listed s expired read writes) (hi : s.runs[i]? = some (.listed expired read writes))
    (hok : undisturbed s (.unsnooze i now) = true) :
    (if (unsnoozeExpiredAlerts s.alerts now).2 = [] then AlertRun.done [] []
      else .unsnoozed expired (unsnoozeExpiredAlerts s.alerts now).2).Right := by
  split
  · exact fun id => Iff.rfl
  · next hsome =>
      simp only [undisturbed, hi, Bool.or_eq_true, Bool.and_eq_true, List.all_eq_true,
        decide_eq_true_eq, Bool.not_eq_true'] at hok
      have hnone : getExpiredSnoozedAlerts s.alerts now ≠ [] := fun hnil =>
        hsome (List.map_eq_nil_iff.2 hnil)
      obtain ⟨hclock, hwritten⟩ := hok.resolve_left hnone
      intro id
      rw [mem_unsnoozed]
      constructor
      · rintro ⟨a, ha, rfl, hexpired⟩
        have hunwritten : a.id ∉ s.written.drop writes := fun hmem =>
          ((hwritten _ hmem).2 a ha).elim (absurd rfl) fun hnot => by
            rw [hexpired] at hnot
            cases hnot
        exact (h.due _ hunwritten).2 ⟨a, ha, rfl, (hclock a ha).trans hexpired⟩
      · intro hid
        have hunwritten : id ∉ s.written.drop writes := fun hmem => (hwritten _ hmem).1 hid
        obtain ⟨a, ha, rfl, hexpired⟩ := (h.due _ hunwritten).1 hid
        exact ⟨a, ha, rfl, (hclock a ha).symm.trans hexpired⟩

/-! ### Every run -/

/-- What is announced is right, and every list says what it says. -/
structure AlertsOk (s : AlertState) : Prop where
  right : ∀ r ∈ s.runs, r.Right
  listed : ∀ expired read writes, .listed expired read writes ∈ s.runs →
    Listed s expired read writes

theorem AlertsOk.write {s : AlertState} (h : AlertsOk s) {ids : List Bytes} {alerts : List Alert}
    (hsame : SameBut ids s.alerts alerts) : AlertsOk ⟨alerts, s.runs, s.written ++ ids⟩ :=
  ⟨h.right, fun _ _ _ hmem => (h.listed _ _ _ hmem).write hsame _⟩

/-- A run goes on. -/
theorem AlertsOk.set {s : AlertState} (h : AlertsOk s) {i : ℕ} {r : AlertRun} (hr : r.Right)
    (hlisted : ∀ expired read writes, r = .listed expired read writes →
      Listed s expired read writes) :
    AlertsOk { s with runs := s.runs.set i r } := by
  refine ⟨forall_mem_set h.right hr, fun expired read writes hmem => ?_⟩
  have hold : Listed s expired read writes := by
    rcases List.mem_or_eq_of_mem_set hmem with hmem | heq
    · exact h.listed _ _ _ hmem
    · exact hlisted _ _ _ heq.symm
  exact ⟨hold.past, hold.due⟩

/-- **Every step that meets the condition** leaves what is announced right. -/
theorem AlertsOk.next {s t : AlertState} {ev : AlertEvent} (h : AlertsOk s)
    (hnext : nextAlerts s ev = some t) (hok : undisturbed s ev = true) : AlertsOk t := by
  cases ev with
  | create a =>
      simp only [nextAlerts] at hnext
      split at hnext
      · obtain rfl := Option.some.inj hnext
        exact h.write (sameBut_create a)
      · cases hnext
  | update id status snoozedUntil =>
      obtain rfl := Option.some.inj hnext
      exact h.write sameBut_updateAlertStatus
  | updateAll ids status snoozedUntil =>
      obtain rfl := Option.some.inj hnext
      exact h.write sameBut_updateAlertStatuses
  | delete ids =>
      obtain rfl := Option.some.inj hnext
      exact h.write sameBut_delete
  | begin =>
      obtain rfl := Option.some.inj hnext
      refine ⟨forall_mem_append_singleton h.right trivial, fun expired read writes hmem => ?_⟩
      rcases List.mem_append.1 hmem with hmem | hmem
      · have hold := h.listed _ _ _ hmem
        exact ⟨hold.past, hold.due⟩
      · cases List.mem_singleton.1 hmem
  | list i now =>
      simp only [nextAlerts] at hnext
      split at hnext
      · obtain rfl := Option.some.inj hnext
        refine h.set ?_ fun expired read writes heq => ?_
        · split
          · exact fun id => Iff.rfl
          · trivial
        · split at heq
          · cases heq
          · obtain ⟨rfl, rfl, rfl⟩ := AlertRun.listed.inj heq
            exact Listed.list s now
      · cases hnext
  | unsnooze i now =>
      simp only [nextAlerts] at hnext
      split at hnext
      · next expired read writes hi =>
          obtain rfl := Option.some.inj hnext
          have hright := (h.listed _ _ _ (List.mem_of_getElem? hi)).right hi hok
          refine (h.set hright fun expired' read' writes' heq => ?_).write
            sameBut_unsnoozeExpiredAlerts
          split at heq <;> cases heq
      · cases hnext
  | announce i =>
      simp only [nextAlerts] at hnext
      split at hnext
      · next expired moved hi =>
          obtain rfl := Option.some.inj hnext
          have hright : ∀ id, id ∈ moved ↔ id ∈ expired.map Alert.id :=
            h.right _ (List.mem_of_getElem? hi)
          exact h.set hright fun _ _ _ heq => nomatch heq
      · cases hnext
  | fail i =>
      have hdone : (AlertRun.done [] []).Right := fun _ => Iff.rfl
      simp only [nextAlerts] at hnext
      split at hnext
      · obtain rfl := Option.some.inj hnext
        exact h.set hdone fun _ _ _ heq => nomatch heq
      · obtain rfl := Option.some.inj hnext
        exact h.set hdone fun _ _ _ heq => nomatch heq
      · cases hnext

/-- **Every alert that is moved is announced, and no other**: along a sequence of events in which no
run is disturbed between its list and its move. -/
theorem announced_of_undisturbed {s : AlertState} (hinit : alertMachine.init s)
    (evs : List AlertEvent)
    (h : alertMachine.Along s evs fun s ev _ => undisturbed s ev = true) :
    alertMachine.Along s evs fun _ _ t => ∀ r ∈ t.runs, r.Right := by
  intro pre ev post t u hsplit hr hstep
  have hstart : AlertsOk s := by
    have hruns : s.runs = [] := hinit
    refine ⟨fun r hr => ?_, fun expired read writes hr => ?_⟩ <;>
      exact absurd (hruns ▸ hr) List.not_mem_nil
  have hok : AlertsOk t := h.invariant
    (fun _ _ _ hI hstep hundisturbed => hI.next hstep hundisturbed) hstart hsplit hr
  exact (hok.next hstep (h pre ev post t u hsplit hr hstep)).right

/-- Two alerts, of which one is due. -/
def oneDue : AlertState where
  alerts := [⟨bytes "x", bytes "snoozed", some (bytes "2026-01-01T00:00:01Z")⟩,
    ⟨bytes "y", bytes "snoozed", some (bytes "2026-01-01T00:00:03Z")⟩]
  runs := []
  written := []

/-- Two runs at a time, and the other alert is put off meanwhile. -/
theorem announced_of_undisturbed_sample :
    alertMachine.Along oneDue
      [.begin, .begin, .list 0 (bytes "2026-01-01T00:00:01Z"), .list 1 (bytes "2026-01-01T00:00:01Z"),
        .update (bytes "y") (bytes "snoozed") (bytes "2026-01-01T00:00:09Z"),
        .unsnooze 0 (bytes "2026-01-01T00:00:02Z"), .unsnooze 1 (bytes "2026-01-01T00:00:02Z"),
        .announce 0]
      fun _ _ t => ∀ r ∈ t.runs, r.Right := by
  refine announced_of_undisturbed (show oneDue.runs = [] from rfl) _ ?_
  refine Machine.along_of_check (fun s ev t => (Iff.rfl : _ ↔ nextAlerts s ev = some t)) ?_
  decide

/-- Of two alerts one expires after the list was read: both are moved, and one is announced. -/
theorem alert_not_announced : ∃ s, alertMachine.Reachable s ∧
    s.runs = [.done [bytes "x"] [bytes "x", bytes "y"]] := by
  have hrun : (([.begin, .list 0 (bytes "2026-01-01T00:00:01Z"),
      .unsnooze 0 (bytes "2026-01-01T00:00:03Z"), .announce 0] : List AlertEvent).foldlM nextAlerts
        oneDue).map AlertState.runs = some [.done [bytes "x"] [bytes "x", bytes "y"]] := by
    decide
  obtain ⟨s, hs, hruns⟩ := Option.map_eq_some_iff.1 hrun
  exact ⟨s, (Machine.Reachable.of_init rfl).foldlM (fun _ _ _ h => h) hs, hruns⟩

end WiseLabz.Notify
