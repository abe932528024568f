/-
**When the three reads of the uptime agree.**

Each read has its checks from a query of its own.  Two of them cut the window at the texts of its
ends and one at the instants, and checks of one second come in any order.  The uptime depends on the
checks through their instants and on whether they are offline, and on the maintenance windows
through the instants they cover, so the reads agree where the cuts leave the same checks and no
second has an offline check and another one.  Without maintenance they agree only there.

Main definitions:

* `Uptime.ReadsAgree` — the reads agree, whatever order their queries return the rows in;
* `Uptime.CutAlike`, `Uptime.SettledTies` — **the condition**.

Main results:

* `Uptime.computeUptime_congr` — what the uptime depends on;
* `Uptime.readsAgree_iff` — **when the three reads agree**.
-/

import WiseLabz.Lib.Fallible
import WiseLabz.Lib.Sorting
import WiseLabz.Store.UptimeExact

set_option relaxedAutoImplicit false
set_option autoImplicit false

namespace WiseLabz.Uptime

open Lib

/-! ### What is read -/

/-- The point of a check. -/
def HealthCheckRecord.point (c : HealthCheckRecord) : HealthPoint :=
  ⟨c.status, c.checkedAt.instant⟩

/-- The span of a maintenance window. -/
def MaintenanceWindowRecord.span (w : MaintenanceWindowRecord) : Span :=
  ⟨w.startsAt.instant, w.endsAt.instant⟩

/-- The spans of a connector. -/
def Rows.spans (rows : Rows) (id : Bytes) : List Span :=
  (rows.windows.filter fun w => w.connectorID = id).map MaintenanceWindowRecord.span

theorem scanHealthPoint_eq (c : HealthCheckRecord) : scanHealthPoint c = some c.point := by
  rw [scanHealthPoint, Stamp.parseTime_text]
  rfl

theorem loadHealthPoints_eq (rows : Rows) :
    loadHealthPoints rows = some (rows.checks.map HealthCheckRecord.point) :=
  mapM_eq_some_map fun c _ => scanHealthPoint_eq c

theorem loadMaintenanceSpans_eq (rows : Rows) (id : Bytes) :
    loadMaintenanceSpans rows id = rows.spans id := by
  rw [loadMaintenanceSpans, Rows.spans, ← List.filterMap_eq_map]
  refine List.filterMap_congr fun w _ => ?_
  rw [Stamp.parseTime_text, Stamp.parseTime_text]
  rfl

section Entries

variable {F : Type} (floats : Floats F) (rows : Rows)

theorem getConnectorUptime_eq (id : Bytes) (since until' : ℤ) :
    getConnectorUptime floats rows id since until' = some (computeUptime floats id
      (rows.checks.map HealthCheckRecord.point) (rows.spans id) since until') := by
  simp only [getConnectorUptime, loadHealthPoints_eq, loadMaintenanceSpans_eq, Option.bind_eq_bind,
    Option.bind_some, Option.pure_def]

theorem getFleetUptime_eq {connectorIDs : List Bytes} (hne : connectorIDs ≠ [])
    (since until' : ℤ) :
    getFleetUptime floats rows connectorIDs since until' = some (connectorIDs.map fun id =>
      computeUptime floats id ((rows.checks.filter fun c => c.connectorID = id).map
        HealthCheckRecord.point) (rows.spans id) since until') := by
  have hrows : rows.checks.mapM (fun c => (scanHealthPoint c).map fun p => (c.connectorID, p)) =
      some (rows.checks.map fun c => (c.connectorID, c.point)) :=
    mapM_eq_some_map fun c _ => by rw [scanHealthPoint_eq]; rfl
  rw [getFleetUptime, if_neg hne, hrows]
  refine congrArg some (List.map_congr_left fun id _ => ?_)
  rw [loadMaintenanceSpans_eq, List.filter_map, List.map_map]
  rfl

theorem getConnectorUptimeWindows_eq {rows : Rows}
    (hsorted : rows.checks.Pairwise fun c c' => c.time ≤ c'.time) (id : Bytes) (until' : ℤ)
    (lookbacks : List Int64) :
    getConnectorUptimeWindows floats rows id until' lookbacks = some (lookbacks.map fun d =>
      computeUptime floats id ((rows.checks.filter fun c =>
        decide (before until' d ≤ c.checkedAt.instant)).map HealthCheckRecord.point) (rows.spans id)
          (before until' d) until') := by
  simp only [getConnectorUptimeWindows, loadHealthPoints_eq, loadMaintenanceSpans_eq,
    Option.bind_eq_bind, Option.bind_some, Option.pure_def]
  refine congrArg some (List.map_congr_left fun d _ => ?_)
  have hnarrowed : (rows.checks.map HealthCheckRecord.point).drop
      ((rows.checks.map HealthCheckRecord.point).findIdx fun p =>
        ¬ p.checkedAt < before until' d) =
      (rows.checks.filter fun c => decide (before until' d ≤ c.checkedAt.instant)).map
        HealthCheckRecord.point := by
    rw [drop_findIdx (r := fun p p' : HealthPoint => p.checkedAt ≤ p'.checkedAt), List.filter_map]
    · refine congrArg₂ List.map rfl (List.filter_congr fun c _ => ?_)
      exact decide_eq_decide.2 not_lt
    · rw [List.pairwise_map]
      exact hsorted.imp fun h => Stamp.instant_mono h
    · intro p p' hle hp
      simp only [decide_eq_true_eq, not_lt] at hp ⊢
      exact hp.trans hle
  rw [hnarrowed]

end Entries

/-! ### What the uptime depends on -/

/-- What counts of a point. -/
def HealthPoint.mark (p : HealthPoint) : Bool × ℤ := (p.status = bytes "offline", p.checkedAt)

theorem Measure.add_congr (m : Measure) {status status' : Bytes} (segment : Int64)
    (h : status = bytes "offline" ↔ status' = bytes "offline") :
    m.add status segment = m.add status' segment := by
  unfold Measure.add
  simp only [ne_eq, h]

theorem mark_eq_iff {p p' : HealthPoint} : p.mark = p'.mark ↔
    (p.status = bytes "offline" ↔ p'.status = bytes "offline") ∧ p.checkedAt = p'.checkedAt := by
  rw [HealthPoint.mark, HealthPoint.mark, Prod.mk.injEq, decide_eq_decide]

theorem checkedAt_eq_of_mark {points points' : List HealthPoint}
    (h : points.map HealthPoint.mark = points'.map HealthPoint.mark) :
    points.map HealthPoint.checkedAt = points'.map HealthPoint.checkedAt := by
  have hsnd := congrArg (List.map Prod.snd) h
  rw [List.map_map, List.map_map] at hsnd
  exact hsnd

theorem gaps_congr {points points' : List HealthPoint}
    (h : points.map HealthPoint.checkedAt = points'.map HealthPoint.checkedAt) :
    gaps points = gaps points' := by
  induction points generalizing points' with
  | nil => rw [List.map_eq_nil_iff.1 h.symm]
  | cons p ps ih =>
      cases points' with
      | nil => cases h
      | cons p' ps' =>
          obtain ⟨hp, hps⟩ := List.cons.inj h
          cases ps with
          | nil => rw [List.map_eq_nil_iff.1 hps.symm, gaps, gaps] <;> simp
          | cons q qs =>
              cases ps' with
              | nil => cases hps
              | cons q' qs' => rw [gaps, gaps, hp, (List.cons.inj hps).1, ih hps]

theorem maxExtension_congr {points points' : List HealthPoint}
    (h : points.map HealthPoint.checkedAt = points'.map HealthPoint.checkedAt) :
    maxExtension points = maxExtension points' := by
  have hlength : points.length = points'.length := by simpa using congrArg List.length h
  rw [maxExtension, maxExtension, gaps_congr h, hlength]

/-- A status holds for no longer than the limit, so its time does not overflow. -/
theorem outsideMaintenance_congr {a b : ℤ} (limit : Int64) {maint maint' : List Span}
    (hb : b ≤ a + limit.toInt) (h : SameCover a b maint maint') :
    outsideMaintenance a b maint = outsideMaintenance a b maint' := by
  have hlimit := limit.toInt_lt
  rw [outsideMaintenance_eq (by omega), outsideMaintenance_eq (by omega), outsideTime_congr h]

theorem measure_congr {limit : Int64} {maint maint' : List Span} {until' : ℤ}
    {points points' : List HealthPoint} (m : Measure)
    (h : points.map HealthPoint.mark = points'.map HealthPoint.mark)
    (hcover : ∀ p ∈ points, ∀ b, SameCover p.checkedAt b maint maint') :
    measure limit maint until' m points = measure limit maint' until' m points' := by
  induction points generalizing points' m with
  | nil => rw [List.map_eq_nil_iff.1 h.symm, measure, measure]
  | cons p ps ih =>
      cases points' with
      | nil => cases h
      | cons p' ps' =>
          obtain ⟨hp, hps⟩ := List.cons.inj h
          obtain ⟨hstatus, htime⟩ := mark_eq_iff.1 hp
          have hhead : ps.head?.map HealthPoint.checkedAt = ps'.head?.map HealthPoint.checkedAt := by
            have hheads := congrArg List.head? (checkedAt_eq_of_mark hps)
            rwa [List.head?_map, List.head?_map] at hheads
          rw [measure, measure, hhead, ← htime,
            ih _ hps fun q hq => hcover q (List.mem_cons_of_mem p hq)]
          congr 1
          rw [outsideMaintenance_congr limit _ (hcover p List.mem_cons_self _)]
          · exact m.add_congr _ hstatus
          · split <;> omega

section Reads

variable {F : Type} (floats : Floats F)

/-- **What the uptime depends on**: of the points whether they are offline and when, of the spans
what they cover after a point. -/
theorem computeUptime_congr {id : Bytes} {points points' : List HealthPoint} {maint maint' : List Span}
    {since until' : ℤ} (h : points.map HealthPoint.mark = points'.map HealthPoint.mark)
    (hcover : ∀ p ∈ points, ∀ b, SameCover p.checkedAt b maint maint') :
    computeUptime floats id points maint since until' =
      computeUptime floats id points' maint' since until' := by
  have hlength : points.length = points'.length := by simpa using congrArg List.length h
  have hnil : points = [] ↔ points' = [] := by
    rw [← List.length_eq_zero_iff, ← List.length_eq_zero_iff, hlength]
  rw [computeUptime, computeUptime, maxExtension_congr (checkedAt_eq_of_mark h), hlength,
    measure_congr {} h hcover]
  simp only [hnil]

end Reads

/-! ### The rows of the reads -/

section Rows

variable {db : Db} {id : Bytes} {ids : List Bytes} {start since until' : ℤ} {rows rows' : Rows}

theorem mem_checkRows {c : HealthCheckRecord} : c ∈ checkRows db ids since until' ↔
    c ∈ db.checks ∧ c.connectorID ∈ ids ∧ instantText since ≤ c.checkedAt.text ∧
      c.checkedAt.text < instantText until' := by
  rw [checkRows, List.mem_filter, Bool.and_eq_true, Bool.and_eq_true, decide_eq_true_eq,
    decide_eq_true_eq, decide_eq_true_eq, and_assoc]

theorem mem_spans (h : rows.Of db ids since until') (hid : id ∈ ids) {m : Span} :
    m ∈ rows.spans id ↔ ∃ w ∈ db.windows, w.connectorID = id ∧ instantText since < w.endsAt.text ∧
      w.startsAt.text < instantText until' ∧ m = w.span := by
  rw [Rows.spans, List.mem_map]
  constructor
  · rintro ⟨w, hw, rfl⟩
    obtain ⟨hw, hwid⟩ := List.mem_filter.1 hw
    rw [h.windows.mem_iff, windowRows, List.mem_filter, Bool.and_eq_true, Bool.and_eq_true] at hw
    exact ⟨w, hw.1, of_decide_eq_true hwid, of_decide_eq_true hw.2.1.1, of_decide_eq_true hw.2.1.2,
      rfl⟩
  · rintro ⟨w, hw, rfl, hends, hstarts, rfl⟩
    refine ⟨w, List.mem_filter.2 ⟨h.windows.mem_iff.2 (List.mem_filter.2 ⟨hw, ?_⟩), ?_⟩, rfl⟩
    · rw [decide_eq_true hends, decide_eq_true hstarts, decide_eq_true hid]
      rfl
    · exact decide_eq_true rfl

/-- **Maintenance before a check** that two windows have changes nothing after it. -/
theorem sameCover_spans {ids' : List Bytes} (h : rows.Of db ids start until')
    (h' : rows'.Of db ids' since until') (hid : id ∈ ids) (hid' : id ∈ ids') {c : HealthCheckRecord}
    (hstart : instantText start ≤ c.checkedAt.text) (hsince : instantText since ≤ c.checkedAt.text)
    (b : ℤ) : SameCover c.checkedAt.instant b (rows.spans id) (rows'.spans id) := by
  -- a span that reaches beyond the check ends in either window
  have hends : ∀ {t : ℤ} {w : MaintenanceWindowRecord}, c.checkedAt.instant ≤ t →
      t < w.endsAt.instant → c.checkedAt.text < w.endsAt.text := by
    intro t w ht hw
    by_contra hle
    exact absurd (Stamp.instant_mono (Std.not_lt.1 hle)) (by omega)
  intro t ht _
  constructor
  · rintro ⟨m, hm, hcover⟩
    obtain ⟨w, hw, hwid, -, hstarts, rfl⟩ := (mem_spans h hid).1 hm
    refine ⟨w.span, (mem_spans h' hid').2 ⟨w, hw, hwid, ?_, hstarts, rfl⟩, hcover⟩
    exact Std.lt_of_le_of_lt hsince (hends ht hcover.2)
  · rintro ⟨m, hm, hcover⟩
    obtain ⟨w, hw, hwid, -, hstarts, rfl⟩ := (mem_spans h' hid').1 hm
    refine ⟨w.span, (mem_spans h hid).2 ⟨w, hw, hwid, ?_, hstarts, rfl⟩, hcover⟩
    exact Std.lt_of_le_of_lt hstart (hends ht hcover.2)

/-- Queries have an answer. -/
theorem exists_rows (db : Db) (ids : List Bytes) (since until' : ℤ) :
    ∃ rows : Rows, rows.Of db ids since until' :=
  ⟨⟨_, _⟩, returned_insertionSort _, List.Perm.refl _⟩

theorem text_le_of_instant_le {x y : Stamp} (h : x.instant ≤ y.instant) : x.text ≤ y.text :=
  Stamp.text_le_iff.2
    (Nat.le_of_mul_le_mul_right (Int.ofNat_le.1 h) (show (0 : ℕ) < nsPerSecond by decide))

theorem instant_inj {x y : Stamp} (h : x.instant = y.instant) : x = y := by
  have hsecond : x.second = y.second :=
    Nat.eq_of_mul_eq_mul_right (show (0 : ℕ) < nsPerSecond by decide) (Int.ofNat.inj h)
  cases x
  cases y
  exact (Stamp.mk.injEq _ _ _ _).mpr hsecond

theorem time_eq_iff {c c' : HealthCheckRecord} :
    c.checkedAt.instant = c'.checkedAt.instant ↔ c.time = c'.time := by
  constructor
  · intro h
    exact congrArg Stamp.text (instant_inj h)
  · intro h
    exact le_antisymm (Stamp.instant_mono (Std.le_of_eq h)) (Stamp.instant_mono (Std.le_of_eq h.symm))

end Rows

/-! ### The condition -/

/-- **The cuts leave the same checks**: what the texts leave of the connector's checks is what the
instants leave. -/
def CutAlike (db : Db) (id : Bytes) (start since until' : ℤ) : Prop :=
  ∀ c ∈ db.checks, c.connectorID = id → instantText since ≤ c.checkedAt.text →
    c.checkedAt.text < instantText until' →
      since ≤ c.checkedAt.instant ∧ instantText start ≤ c.checkedAt.text

/-- **No second has an offline check and another one** of the connector. -/
def SettledTies (db : Db) (id : Bytes) (since until' : ℤ) : Prop :=
  ∀ c ∈ checkRows db [id] since until', ∀ c' ∈ checkRows db [id] since until',
    c.checkedAt = c'.checkedAt → (c.status = bytes "offline" ↔ c'.status = bytes "offline")

/-- **The reads agree**, on one of several lookbacks and one of several connectors, whatever order
their queries return the rows in. -/
def ReadsAgree (db : Db) (until' : ℤ) (lookbacks : List Int64) (i : Fin lookbacks.length)
    (connectorIDs : List Bytes) (j : Fin connectorIDs.length) : Prop :=
  ∀ (F : Type) (floats : Floats F) (windowsRows connectorRows fleetRows : Rows),
    windowsRows.Of db [connectorIDs[j]] (before until' (longest lookbacks)) until' →
    connectorRows.Of db [connectorIDs[j]] (before until' lookbacks[i]) until' →
    fleetRows.Of db connectorIDs (before until' lookbacks[i]) until' →
    ∃ windows stats fleet,
      getConnectorUptimeWindows floats windowsRows connectorIDs[j] until' lookbacks = some windows ∧
        windows[i]? = some stats ∧
      getConnectorUptime floats connectorRows connectorIDs[j] (before until' lookbacks[i]) until' =
        some stats ∧
      getFleetUptime floats fleetRows connectorIDs (before until' lookbacks[i]) until' = some fleet ∧
        fleet[j]? = some stats

section Agreement

variable {db : Db} {id : Bytes} {ids : List Bytes} {start since until' : ℤ}

/-- Where ties are settled, the queries leave the same points in every order. -/
theorem marks_eq (hties : SettledTies db id since until') {order order' : List HealthCheckRecord}
    (h : Returned (· ≤ ·) HealthCheckRecord.time (checkRows db [id] since until') order)
    (h' : Returned (· ≤ ·) HealthCheckRecord.time (checkRows db [id] since until') order') :
    (order.map HealthCheckRecord.point).map HealthPoint.mark =
      (order'.map HealthCheckRecord.point).map HealthPoint.mark := by
  have : Std.Antisymm fun a b : Bytes => a ≤ b := ⟨fun _ _ => Std.le_antisymm⟩
  rw [List.map_map, List.map_map]
  refine h.map_eq (fun c hc c' hc' => ?_) h'
  rw [Function.comp_apply, Function.comp_apply, mark_eq_iff, ← time_eq_iff]
  exact and_iff_right_of_imp fun htime => hties c hc c' hc' (instant_inj htime)

variable (since) in
/-- The checks that the third read keeps of the longest window. -/
theorem narrowed_returned {rows : Rows} (h : rows.Of db [id] start until') :
    Returned (· ≤ ·) HealthCheckRecord.time
      ((checkRows db [id] since until').filter fun c =>
        decide (since ≤ c.checkedAt.instant) && decide (instantText start ≤ c.checkedAt.text))
      (rows.checks.filter fun c => decide (since ≤ c.checkedAt.instant)) := by
  have hrows : (checkRows db [id] start until').filter (fun c =>
      decide (since ≤ c.checkedAt.instant)) = (checkRows db [id] since until').filter fun c =>
        decide (since ≤ c.checkedAt.instant) && decide (instantText start ≤ c.checkedAt.text) := by
    rw [checkRows, checkRows, List.filter_filter, List.filter_filter]
    refine List.filter_congr fun c _ => ?_
    by_cases hsince : since ≤ c.checkedAt.instant
    · have htext : instantText since ≤ c.checkedAt.text := instantText_le c.checkedAt.inYears hsince
      simp only [hsince, htext, decide_true, Bool.true_and, Bool.and_true]
      cases decide (c.connectorID ∈ [id]) <;>
        cases decide (instantText start ≤ c.checkedAt.text) <;> rfl
    · simp only [hsince, decide_false, Bool.false_and]
  exact hrows ▸ h.checks.filter _

/-- The fleet's checks of one connector. -/
theorem fleet_returned {rows : Rows} (h : rows.Of db ids since until') (hid : id ∈ ids) :
    Returned (· ≤ ·) HealthCheckRecord.time (checkRows db [id] since until')
      (rows.checks.filter fun c => decide (c.connectorID = id)) := by
  have hrows : (checkRows db ids since until').filter (fun c => decide (c.connectorID = id)) =
      checkRows db [id] since until' := by
    rw [checkRows, checkRows, List.filter_filter]
    refine List.filter_congr fun c _ => ?_
    by_cases hc : c.connectorID = id
    · simp [hc, hid]
    · simp [hc]
  exact hrows ▸ h.checks.filter _

/-- What the reads agree on: the entries that they compute. -/
theorem readsAgree_iff_entries {lookbacks : List Int64} {i : Fin lookbacks.length}
    {connectorIDs : List Bytes} {j : Fin connectorIDs.length} :
    ReadsAgree db until' lookbacks i connectorIDs j ↔
      ∀ (F : Type) (floats : Floats F) (windowsRows connectorRows fleetRows : Rows),
        windowsRows.Of db [connectorIDs[j]] (before until' (longest lookbacks)) until' →
        connectorRows.Of db [connectorIDs[j]] (before until' lookbacks[i]) until' →
        fleetRows.Of db connectorIDs (before until' lookbacks[i]) until' →
        computeUptime floats connectorIDs[j] ((windowsRows.checks.filter fun c =>
            decide (before until' lookbacks[i] ≤ c.checkedAt.instant)).map HealthCheckRecord.point)
            (windowsRows.spans connectorIDs[j]) (before until' lookbacks[i]) until' =
          computeUptime floats connectorIDs[j] (connectorRows.checks.map HealthCheckRecord.point)
            (connectorRows.spans connectorIDs[j]) (before until' lookbacks[i]) until' ∧
        computeUptime floats connectorIDs[j] ((fleetRows.checks.filter fun c =>
            decide (c.connectorID = connectorIDs[j])).map HealthCheckRecord.point)
            (fleetRows.spans connectorIDs[j]) (before until' lookbacks[i]) until' =
          computeUptime floats connectorIDs[j] (connectorRows.checks.map HealthCheckRecord.point)
            (connectorRows.spans connectorIDs[j]) (before until' lookbacks[i]) until' := by
  have hne : connectorIDs ≠ [] := List.ne_nil_of_length_pos (Nat.zero_lt_of_lt j.isLt)
  refine forall_congr' fun F => forall_congr' fun floats => forall_congr' fun windowsRows =>
    forall_congr' fun connectorRows => forall_congr' fun fleetRows => forall_congr' fun hwindows =>
      forall_congr' fun _ => forall_congr' fun _ => ?_
  rw [getConnectorUptimeWindows_eq floats hwindows.checks.sorted, getConnectorUptime_eq,
    getFleetUptime_eq floats fleetRows hne]
  constructor
  · rintro ⟨windows, stats, fleet, hwindows, hstats, hconnector, hfleet, hstats'⟩
    obtain rfl := Option.some.inj hwindows
    obtain rfl := Option.some.inj hfleet
    obtain rfl := Option.some.inj hconnector
    rw [Fin.getElem?_fin, List.getElem?_map, List.getElem?_eq_getElem i.isLt] at hstats
    rw [Fin.getElem?_fin, List.getElem?_map, List.getElem?_eq_getElem j.isLt] at hstats'
    exact ⟨Option.some.inj hstats, Option.some.inj hstats'⟩
  · rintro ⟨hwindow, hfleet⟩
    refine ⟨_, _, _, rfl, ?_, rfl, rfl, ?_⟩
    · rw [Fin.getElem?_fin, List.getElem?_map, List.getElem?_eq_getElem i.isLt]
      exact congrArg some hwindow
    · rw [Fin.getElem?_fin, List.getElem?_map, List.getElem?_eq_getElem j.isLt]
      exact congrArg some hfleet

/-- **The condition is enough.** -/
theorem readsAgree_of_settled {lookbacks : List Int64} {i : Fin lookbacks.length}
    {connectorIDs : List Bytes} {j : Fin connectorIDs.length}
    (hcut : CutAlike db connectorIDs[j] (before until' (longest lookbacks))
      (before until' lookbacks[i]) until')
    (hties : SettledTies db connectorIDs[j] (before until' lookbacks[i]) until') :
    ReadsAgree db until' lookbacks i connectorIDs j := by
  refine readsAgree_iff_entries.2 fun F floats windowsRows connectorRows fleetRows hwindows
    hconnector hfleet => ?_
  have hid : connectorIDs[j] ∈ connectorIDs := List.getElem_mem j.isLt
  have hself : connectorIDs[j] ∈ [connectorIDs[j]] := List.mem_singleton_self _
  have hall : (checkRows db [connectorIDs[j]] (before until' lookbacks[i]) until').filter (fun c =>
      decide (before until' lookbacks[i] ≤ c.checkedAt.instant) &&
        decide (instantText (before until' (longest lookbacks)) ≤ c.checkedAt.text)) =
      checkRows db [connectorIDs[j]] (before until' lookbacks[i]) until' := by
    refine List.filter_eq_self.2 fun c hc => ?_
    obtain ⟨hmem, hcid, hsince, huntil⟩ := mem_checkRows.1 hc
    obtain ⟨hinstant, hstart⟩ := hcut c hmem (List.mem_singleton.1 hcid) hsince huntil
    rw [decide_eq_true hinstant, decide_eq_true hstart]
    rfl
  have hnarrowed := narrowed_returned (before until' lookbacks[i]) hwindows
  rw [hall] at hnarrowed
  have hfiltered := fleet_returned hfleet hid
  constructor
  · refine computeUptime_congr floats (marks_eq hties hnarrowed hconnector.checks) ?_
    intro p hp b
    obtain ⟨c, hc, rfl⟩ := List.mem_map.1 hp
    obtain ⟨hmem, hcid, hsince, huntil⟩ := mem_checkRows.1 (hnarrowed.perm.mem_iff.1 hc)
    have hstart := (hcut c hmem (List.mem_singleton.1 hcid) hsince huntil).2
    exact sameCover_spans hwindows hconnector hself hself hstart hsince b
  · refine computeUptime_congr floats (marks_eq hties hfiltered hconnector.checks) ?_
    intro p hp b
    obtain ⟨c, hc, rfl⟩ := List.mem_map.1 hp
    obtain ⟨-, -, hsince, -⟩ := mem_checkRows.1 (hfiltered.perm.mem_iff.1 hc)
    exact sameCover_spans hfleet hconnector hid hself hsince hsince b

/-! ### The condition is needed -/

variable (id) in
theorem checkCount_le {F : Type} (floats : Floats F) (points : List HealthPoint) (maint : List Span)
    (since until' : ℤ) :
    (computeUptime floats id points maint since until').checkCount ≤ points.length := by
  rw [computeUptime]
  split
  · exact Nat.zero_le _
  · dsimp only
    split
    · exact Nat.zero_le _
    · exact le_rfl

theorem computeUptime_of_measured {F : Type} (floats : Floats F) {points : List HealthPoint}
    {maint : List Span} (hne : points ≠ [])
    (h : ¬ (measure (maxExtension points) maint until' {} points).total ≤ 0) :
    (computeUptime floats id points maint since until').checkCount = points.length ∧
      (computeUptime floats id points maint since until').availabilityPct =
        floats.percent (measure (maxExtension points) maint until' {} points).up
          (measure (maxExtension points) maint until' {} points).total := by
  rw [computeUptime, if_neg hne]
  dsimp only
  rw [if_neg h]
  exact ⟨rfl, rfl⟩

theorem maxExtension_pos (points : List HealthPoint) : 0 < (maxExtension points).toInt := by
  have hleast : 0 < minExtension.toInt := by decide
  have hmax : ∀ x y : Int64, max x y = if x ≤ y then y else x := fun _ _ => rfl
  rw [maxExtension]
  split
  · exact hleast
  · dsimp only
    rw [hmax]
    split
    · exact hleast
    · next hlt =>
        rw [Int64.le_iff_toInt_le, not_le] at hlt
        exact hleast.trans hlt

/-- Without maintenance the last point is measured. -/
theorem sum_segments_pos {limit : ℤ} (hlimit : 0 < limit) {points : List HealthPoint}
    (hne : points ≠ []) (hbefore : ∀ p ∈ points, p.checkedAt < until') :
    0 < ((segments limit [] until' points).map Prod.snd).sum := by
  induction points with
  | nil => exact absurd rfl hne
  | cons p ps ih =>
      rw [segments, List.map_cons, List.sum_cons]
      have hnonneg := outsideTime_nonneg p.checkedAt (holdsUntil limit p (nextAt ps until')) []
      cases ps with
      | nil =>
          have hp := hbefore p List.mem_cons_self
          have hpos : 0 < outsideTime p.checkedAt (holdsUntil limit p until') [] := by
            have hend : p.checkedAt < holdsUntil limit p until' := by
              unfold holdsUntil
              split <;> omega
            rw [outsideTime, if_neg (not_le.2 hend)]
            exact sub_pos.2 hend
          exact Int.add_pos_of_pos_of_nonneg hpos le_rfl
      | cons q qs =>
          have hrest := ih (List.cons_ne_nil q qs) fun p' hp' =>
            hbefore p' (List.mem_cons_of_mem p hp')
          exact Int.add_pos_of_nonneg_of_pos hnonneg hrest

/-- **Without maintenance there are data** where there are checks of the last 292 years. -/
theorem measured_pos {points : List HealthPoint} (hne : points ≠ [])
    (hsorted : points.Pairwise fun p p' => p.checkedAt ≤ p'.checkedAt)
    (hbefore : ∀ p ∈ points, p.checkedAt < until')
    (hnear : ∀ p ∈ points, until' - p.checkedAt < 2 ^ 63) :
    ¬ (measure (maxExtension points) [] until' {} points).total ≤ 0 := by
  have hasc : Ascending points until' := ⟨hsorted, fun p hp => (hbefore p hp).le⟩
  have hsince : ∀ p ∈ points, until' - 2 ^ 63 + 1 ≤ p.checkedAt := fun p hp => by
    have := hnear p hp
    omega
  have hmeasure : measure (maxExtension points) [] until' {} points =
      (tally (segments (maxExtension points).toInt [] until' points)).measure :=
    measure_eq (by omega) hasc hsince {}
  have hpos := sum_segments_pos (maxExtension_pos points) hne hbefore
  have hle := sum_segments_le hasc (maxExtension points).toInt []
  have hsegments : ∀ s ∈ segments (maxExtension points).toInt [] until' points, 0 ≤ s.2 :=
    segments_nonneg points
  have htotal := (tally_ok hsegments).total
  have hfirst : until' - nextAt points until' < 2 ^ 63 := by
    cases points with
    | nil => exact absurd rfl hne
    | cons p ps => exact hnear p List.mem_cons_self
  rw [hmeasure, Tally.measure, Int64.le_iff_toInt_le, htotal,
    toInt_ofInt ⟨by omega, by omega⟩]
  exact not_le.2 hpos

/-- The statuses before a point do not matter to where it begins. -/
theorem exists_measure_append (limit : Int64) (maint : List Span) (t : ℤ) (l : List HealthPoint)
    (m : Measure) : ∃ m', ∀ p ps, p.checkedAt = t →
      measure limit maint until' m (l ++ p :: ps) = measure limit maint until' m' (p :: ps) := by
  induction l generalizing m with
  | nil => exact ⟨m, fun _ _ _ => rfl⟩
  | cons q l ih =>
      have hhead : ∃ next, ∀ (p : HealthPoint) ps, p.checkedAt = t →
          ((l ++ p :: ps).head?.map HealthPoint.checkedAt).getD until' = next := by
        cases l with
        | nil => exact ⟨t, fun p ps hp => hp⟩
        | cons q' l => exact ⟨q'.checkedAt, fun p ps _ => rfl⟩
      obtain ⟨next, hnext⟩ := hhead
      obtain ⟨m', hm'⟩ := ih (m.add q.status (outsideMaintenance q.checkedAt
        (if q.checkedAt + limit.toInt < next then q.checkedAt + limit.toInt else next) maint))
      refine ⟨m', fun p ps hp => ?_⟩
      rw [List.cons_append, measure, hnext p ps hp]
      exact hm' p ps hp

theorem Measure.add_up (m : Measure) (status : Bytes) (segment : Int64) :
    (m.add status segment).up = m.up + if status = bytes "offline" then 0 else segment := by
  unfold Measure.add
  by_cases hoff : status = bytes "offline"
  · simp [hoff]
  · simp only [hoff, if_false, ne_eq, not_false_eq_true, if_true]
    split <;> rfl

variable (until') in
/-- What the rest of the points adds to the time up. -/
theorem exists_up (limit : Int64) (maint : List Span) (points : List HealthPoint) :
    ∃ u, ∀ m, (measure limit maint until' m points).up = m.up + u := by
  induction points with
  | nil => exact ⟨0, fun m => (Int64.add_zero m.up).symm⟩
  | cons p ps ih =>
      obtain ⟨u, hu⟩ := ih
      obtain ⟨segment, hsegment⟩ : ∃ segment, ∀ m, measure limit maint until' m (p :: ps) =
          measure limit maint until' (m.add p.status segment) ps := ⟨_, fun _ => rfl⟩
      refine ⟨(if p.status = bytes "offline" then 0 else segment) + u, fun m => ?_⟩
      rw [hsegment, hu, Measure.add_up, Int64.add_assoc]

/-- Of two points of one instant only the second one holds. -/
theorem measure_tied {limit : Int64} (hlimit : 0 < limit.toInt) {t : ℤ} {r : List HealthPoint}
    (ht : t < nextAt r until') :
    ∃ b, t < b ∧ b ≤ t + limit.toInt ∧ ∀ maint m p q, p.checkedAt = t → q.checkedAt = t →
      measure limit maint until' m (p :: q :: r) = measure limit maint until'
        ((m.add p.status 0).add q.status (outsideMaintenance t b maint)) r := by
  refine ⟨if t + limit.toInt < nextAt r until' then t + limit.toInt else nextAt r until', ?_, ?_,
    fun maint m p q hp hq => ?_⟩
  · split <;> omega
  · split <;> omega
  · have hnothing : outsideMaintenance t (if t + limit.toInt < t then t + limit.toInt else t) maint =
        0 := by
      rw [outsideMaintenance, if_pos]
      split <;> omega
    rw [measure, measure]
    simp only [List.head?_cons, Option.map_some, Option.getD_some, hp, hq]
    rw [hnothing]
    rfl

/-- **The order of an offline point and another one of one instant** shows in the time up. -/
theorem up_ne_of_tied {limit : Int64} (hlimit : 0 < limit.toInt) {l r : List HealthPoint}
    {p q : HealthPoint} (htime : p.checkedAt = q.checkedAt) (hp : p.status = bytes "offline")
    (hq : q.status ≠ bytes "offline") (hr : q.checkedAt < nextAt r until') :
    (measure limit [] until' {} (l ++ p :: q :: r)).up ≠
      (measure limit [] until' {} (l ++ q :: p :: r)).up := by
  obtain ⟨m, hm⟩ := exists_measure_append limit [] q.checkedAt l {}
  obtain ⟨b, hlt, hle, htied⟩ := measure_tied hlimit hr
  obtain ⟨u, hu⟩ := exists_up until' limit [] r
  rw [hm p _ htime, hm q _ rfl, htied [] m p q htime rfl, htied [] m q p rfl htime, hu, hu,
    Measure.add_up, Measure.add_up, Measure.add_up, Measure.add_up, if_pos hp, if_neg hq, if_pos hp,
    if_neg hq, ne_eq, Int64.add_left_inj, Int64.add_zero, Int64.add_zero, Int64.add_eq_left]
  -- the second point holds for some time
  have hmax := limit.toInt_lt
  have htime : outsideTime q.checkedAt b [] = b - q.checkedAt := by
    rw [outsideTime, if_neg (not_le.2 hlt)]
    rfl
  rw [outsideMaintenance_eq (by omega), htime]
  intro hzero
  have hback := congrArg Int64.toInt hzero
  rw [toInt_ofInt ⟨by omega, by omega⟩] at hback
  exact absurd (sub_eq_zero.1 hback) (ne_of_gt hlt)

theorem spans_eq_nil {rows : Rows} (h : rows.Of db ids since until') (hid : id ∈ ids)
    (hnone : ∀ w ∈ db.windows, w.connectorID ≠ id) : rows.spans id = [] := by
  refine List.eq_nil_iff_forall_not_mem.2 fun m hm => ?_
  obtain ⟨w, hw, hwid, -⟩ := (mem_spans h hid).1 hm
  exact hnone w hw hwid

/-- Before the end of the window, by the texts and so by the instants. -/
theorem instant_lt {c : HealthCheckRecord} (h : c.checkedAt.text < instantText until') :
    c.checkedAt.instant < until' := by
  by_contra hle
  exact absurd (instantText_le c.checkedAt.inYears (not_lt.1 hle)) (Std.not_le.2 h)

/-- **A read of checks without maintenance has data.** -/
theorem checkRows_measured {order : List HealthCheckRecord}
    (h : Returned (· ≤ ·) HealthCheckRecord.time (checkRows db [id] since until') order)
    (hne : order ≠ []) (hnear : ∀ c ∈ checkRows db [id] since until',
      until' - c.checkedAt.instant < 2 ^ 63) :
    ¬ (measure (maxExtension (order.map HealthCheckRecord.point)) [] until' {}
      (order.map HealthCheckRecord.point)).total ≤ 0 := by
  refine measured_pos (by simpa using hne) ?_ ?_ ?_
  · rw [List.pairwise_map]
    exact h.sorted.imp fun hle => Stamp.instant_mono hle
  · intro p hp
    obtain ⟨c, hc, rfl⟩ := List.mem_map.1 hp
    exact instant_lt (mem_checkRows.1 (h.perm.mem_iff.1 hc)).2.2.2
  · intro p hp
    obtain ⟨c, hc, rfl⟩ := List.mem_map.1 hp
    exact hnear c (h.perm.mem_iff.1 hc)

section Needed

variable {lookbacks : List Int64} {i : Fin lookbacks.length} {connectorIDs : List Bytes}
  {j : Fin connectorIDs.length} (hagree : ReadsAgree db until' lookbacks i connectorIDs j)
  (hnone : ∀ w ∈ db.windows, w.connectorID ≠ connectorIDs[j])
  (hnear : ∀ c ∈ checkRows db [connectorIDs[j]] (before until' lookbacks[i]) until',
    until' - c.checkedAt.instant < 2 ^ 63)

include hagree hnone hnear

theorem cutAlike_of_agree : CutAlike db connectorIDs[j] (before until' (longest lookbacks))
    (before until' lookbacks[i]) until' := by
  obtain ⟨windowsRows, hwindows⟩ := exists_rows db [connectorIDs[j]]
    (before until' (longest lookbacks)) until'
  obtain ⟨rows, hrows⟩ := exists_rows db [connectorIDs[j]] (before until' lookbacks[i]) until'
  obtain ⟨fleetRows, hfleet⟩ := exists_rows db connectorIDs (before until' lookbacks[i]) until'
  have heq := (readsAgree_iff_entries.1 hagree Unit ⟨(), fun _ _ => (), fun _ => ()⟩ windowsRows rows
    fleetRows hwindows hrows hfleet).1
  by_contra hcut
  simp only [CutAlike, not_forall] at hcut
  obtain ⟨c, hmem, hcid, hsince, huntil, hnot⟩ := hcut
  have hc : c ∈ checkRows db [connectorIDs[j]] (before until' lookbacks[i]) until' :=
    mem_checkRows.2 ⟨hmem, List.mem_singleton.2 hcid, hsince, huntil⟩
  -- the third read has fewer checks
  have hfewer : (windowsRows.checks.filter fun c =>
      decide (before until' lookbacks[i] ≤ c.checkedAt.instant)).length < rows.checks.length := by
    rw [(narrowed_returned (before until' lookbacks[i]) hwindows).perm.length_eq,
      hrows.checks.perm.length_eq]
    refine List.length_filter_lt_length_iff_exists.2 ⟨c, hc, fun h => hnot ?_⟩
    rw [Bool.and_eq_true, decide_eq_true_eq, decide_eq_true_eq] at h
    exact h
  have hne : rows.checks ≠ [] := List.ne_nil_of_mem (hrows.checks.perm.mem_iff.2 hc)
  have hmeasured := checkRows_measured hrows.checks hne hnear
  have hpoints : rows.checks.map HealthCheckRecord.point ≠ [] := by simpa using hne
  have hcount := congrArg UptimeStats.checkCount heq
  rw [spans_eq_nil hrows (List.mem_singleton_self _) hnone,
    (computeUptime_of_measured _ hpoints hmeasured).1] at hcount
  have hle := checkCount_le connectorIDs[j] (⟨(), fun _ _ => (), fun _ => ()⟩ : Floats Unit)
    ((windowsRows.checks.filter fun c =>
      decide (before until' lookbacks[i] ≤ c.checkedAt.instant)).map HealthCheckRecord.point)
    (windowsRows.spans connectorIDs[j]) (before until' lookbacks[i]) until'
  rw [hcount, List.length_map, List.length_map] at hle
  omega

theorem settledTies_of_agree :
    SettledTies db connectorIDs[j] (before until' lookbacks[i]) until' := by
  have : Std.Total fun a b : Bytes => a ≤ b := ⟨fun _ _ => Std.le_total⟩
  have : IsTrans Bytes fun a b => a ≤ b := ⟨fun _ _ _ => Std.le_trans⟩
  -- an offline check and another one of one second
  have htied : ∀ c ∈ checkRows db [connectorIDs[j]] (before until' lookbacks[i]) until',
      ∀ c' ∈ checkRows db [connectorIDs[j]] (before until' lookbacks[i]) until',
        c.checkedAt = c'.checkedAt → c.status = bytes "offline" → c'.status = bytes "offline" := by
    intro c hc c' hc' htime hoff
    by_contra hon
    have hne : c ≠ c' := fun h => hon (h ▸ hoff)
    obtain ⟨l, r, hfirst, hsecond, hbehind⟩ :=
      exists_tied (fun a b : Bytes => a ≤ b) HealthCheckRecord.time hc hc' hne
        (congrArg Stamp.text htime)
    obtain ⟨windowsRows, hwindows⟩ := exists_rows db [connectorIDs[j]]
      (before until' (longest lookbacks)) until'
    obtain ⟨fleetRows, hfleet⟩ := exists_rows db connectorIDs (before until' lookbacks[i]) until'
    have hentry := fun order horder => (readsAgree_iff_entries.1 hagree (Int64 × Int64)
      ⟨(0, 0), Prod.mk, fun d => (d, 0)⟩ windowsRows
      ⟨order, windowRows db [connectorIDs[j]] (before until' lookbacks[i]) until'⟩ fleetRows hwindows
      ⟨horder, List.Perm.refl _⟩ hfleet).1
    have heq := (hentry _ hfirst).symm.trans (hentry _ hsecond)
    have hspans : ∀ order, Rows.spans ⟨order, windowRows db [connectorIDs[j]]
        (before until' lookbacks[i]) until'⟩ connectorIDs[j] = [] := by
      intro order
      rw [Rows.spans, List.filter_eq_nil_iff.2 fun w hw => ?_, List.map_nil]
      rw [decide_eq_true_eq]
      exact hnone w (List.mem_filter.1 hw).1
    have hlist : ∀ x y : HealthCheckRecord, l ++ x :: y :: r ≠ [] := fun x y => by simp
    have hpoints : ∀ x y : HealthCheckRecord,
        (l ++ x :: y :: r).map HealthCheckRecord.point ≠ [] := fun x y => by simp
    have hpct := congrArg UptimeStats.availabilityPct heq
    rw [hspans, hspans, (computeUptime_of_measured _ (hpoints c c')
      (checkRows_measured hfirst (hlist c c') hnear)).2, (computeUptime_of_measured _ (hpoints c' c)
      (checkRows_measured hsecond (hlist c' c) hnear)).2] at hpct
    have hup := (Prod.mk.inj hpct).1
    have hinstant : c.point.checkedAt = c'.point.checkedAt := congrArg Stamp.instant htime
    have hmax : maxExtension ((l ++ c' :: c :: r).map HealthCheckRecord.point) =
        maxExtension ((l ++ c :: c' :: r).map HealthCheckRecord.point) := by
      refine maxExtension_congr ?_
      simp [hinstant]
    rw [hmax, List.map_append, List.map_append, List.map_cons, List.map_cons, List.map_cons,
      List.map_cons] at hup
    refine up_ne_of_tied (maxExtension_pos _) hinstant hoff hon ?_ hup
    -- the next check is of a later second
    cases r with
    | nil => exact instant_lt (mem_checkRows.1 hc').2.2.2
    | cons d r =>
        have hlater := hbehind d List.mem_cons_self
        by_contra hle
        exact hlater (text_le_of_instant_le ((not_lt.1 hle).trans_eq hinstant.symm))
  intro c hc c' hc' htime
  exact ⟨htied c hc c' hc' htime, htied c' hc' c hc htime.symm⟩

end Needed

/-- **When the three reads agree**: where the cuts leave the same checks and no second has an
offline check and another one.  Of the last 292 years, and without maintenance, they agree only
there. -/
theorem readsAgree_iff (db : Db) (until' : ℤ) (lookbacks : List Int64) (i : Fin lookbacks.length)
    (connectorIDs : List Bytes) (j : Fin connectorIDs.length) :
    (CutAlike db connectorIDs[j] (before until' (longest lookbacks)) (before until' lookbacks[i])
        until' ∧ SettledTies db connectorIDs[j] (before until' lookbacks[i]) until' →
      ReadsAgree db until' lookbacks i connectorIDs j) ∧
    ((∀ w ∈ db.windows, w.connectorID ≠ connectorIDs[j]) →
      (∀ c ∈ checkRows db [connectorIDs[j]] (before until' lookbacks[i]) until',
        until' - c.checkedAt.instant < 2 ^ 63) →
      ReadsAgree db until' lookbacks i connectorIDs j →
        CutAlike db connectorIDs[j] (before until' (longest lookbacks)) (before until' lookbacks[i])
          until' ∧ SettledTies db connectorIDs[j] (before until' lookbacks[i]) until') :=
  ⟨fun h => readsAgree_of_settled h.1 h.2, fun hnone hnear hagree =>
    ⟨cutAlike_of_agree hagree hnone hnear, settledTies_of_agree hagree hnone hnear⟩⟩

end Agreement

/-- A check at noon, and one a minute later. -/
def noonChecks : Db where
  checks :=
    [⟨bytes "c", bytes "online", ⟨daysBeforeYear 2026 * 86400 + 43200, by decide⟩⟩,
      ⟨bytes "c", bytes "online", ⟨daysBeforeYear 2026 * 86400 + 43260, by decide⟩⟩]
  windows := []

def unitFloats : Floats Unit := ⟨(), fun _ _ => (), fun _ => ()⟩

/-- Half a second after noon of the next day. -/
def nextNoon : ℤ := ((daysBeforeYear 2026 * 86400 + 129600) * nsPerSecond + 500000000 : ℕ)

/-- The day before it has two checks in one read, and one in another. -/
theorem reads_disagree :
    Rows.Of noonChecks [bytes "c"] (before nextNoon (Int64.ofNat nsPerDay)) nextNoon
        ⟨noonChecks.checks, []⟩ ∧
      (getConnectorUptime unitFloats ⟨noonChecks.checks, []⟩ (bytes "c")
        (before nextNoon (Int64.ofNat nsPerDay)) nextNoon).map UptimeStats.checkCount = some 2 ∧
      (getConnectorUptimeWindows unitFloats ⟨noonChecks.checks, []⟩ (bytes "c") nextNoon
        [Int64.ofNat nsPerDay]).map (List.map UptimeStats.checkCount) = some [1] := by
  refine ⟨⟨⟨?_, ?_⟩, List.Perm.refl _⟩, by decide, by decide⟩
  · have hrows : checkRows noonChecks [bytes "c"] (before nextNoon (Int64.ofNat nsPerDay)) nextNoon =
        noonChecks.checks := by decide
    exact hrows ▸ List.Perm.refl _
  · decide

end WiseLabz.Uptime
