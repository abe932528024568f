/-
**Three ways to read a connector's uptime.**

The uptime of a window is computed from the checks and the maintenance windows in it.  One read
takes them for one connector, one for several connectors at once, and one takes those of the longest
of several windows and narrows them.  The first two cut a window at the texts of its ends, which are
in whole seconds; the third cuts at the instants.  A query sorts the checks by their time alone, so
those of one second may come in another order the next time.

Main definitions:

* `Uptime.computeUptime` — the uptime from given checks and maintenance windows;
* `Uptime.Rows.Of` — what the queries of a read may return;
* `Uptime.getConnectorUptime`, `Uptime.getConnectorUptimeWindows`, `Uptime.getFleetUptime` — **the
  three reads**.

When they agree is shown in `WiseLabz/Store/UptimeReads.lean`.
-/

import WiseLabz.Lib.Calendar
import WiseLabz.Lib.Ties

set_option relaxedAutoImplicit false
set_option autoImplicit false

namespace WiseLabz.Uptime

open Lib

/-! ### The tables -/

/-- What a column of instants holds: the text of a second of the years 0 to 9999. -/
structure Stamp where
  second : ℕ
  inYears : second < daysBeforeYear 10000 * 86400
  deriving DecidableEq

def Stamp.text (x : Stamp) : Bytes := secondsText x.second

/-- The instant that the text is read as. -/
def Stamp.instant (x : Stamp) : ℤ := (x.second * nsPerSecond : ℕ)

theorem Stamp.parseTime_text (x : Stamp) : parseTime x.text = some (x.second * nsPerSecond) :=
  parseTime_secondsText x.inYears

theorem Stamp.text_le_iff {x y : Stamp} : x.text ≤ y.text ↔ x.second ≤ y.second := by
  rw [← Std.not_lt, ← Nat.not_lt]
  exact not_congr (ordered_secondsText.lt_iff y.inYears x.inYears)

theorem Stamp.instant_mono {x y : Stamp} (h : x.text ≤ y.text) : x.instant ≤ y.instant :=
  Int.ofNat_le.2 (Nat.mul_le_mul_right _ (Stamp.text_le_iff.1 h))

structure HealthCheckRecord where
  connectorID : Bytes
  status : Bytes
  checkedAt : Stamp
  deriving DecidableEq

structure MaintenanceWindowRecord where
  connectorID : Bytes
  startsAt : Stamp
  endsAt : Stamp
  deriving DecidableEq

structure Db where
  checks : List HealthCheckRecord
  windows : List MaintenanceWindowRecord

/-! ### The uptime of a window -/

structure HealthPoint where
  status : Bytes
  checkedAt : ℤ
  deriving DecidableEq

structure Span where
  start : ℤ
  «end» : ℤ
  deriving DecidableEq

/-- The difference of two instants; it stops at the ends of the range. -/
def sub (a b : ℤ) : Int64 :=
  Int64.ofInt (max Int64.minValue.toInt (min (a - b) Int64.maxValue.toInt))

/-- The part of a span within `[a, b)`, unless it is empty. -/
def clip (a b : ℤ) (m : Span) : Option Span :=
  let st := if m.start < a then a else m.start
  let en := if b < m.end then b else m.end
  if st < en then some ⟨st, en⟩ else none

/-- Takes the union of spans, the first of which is `cur`, off a total; they are sorted. -/
def subtractUnion (total : Int64) (cur : Span) : List Span → Int64
  | [] => total - sub cur.end cur.start
  | c :: cs =>
      if cur.end < c.start then subtractUnion (total - sub cur.end cur.start) c cs
      else subtractUnion total (if cur.end < c.end then { cur with «end» := c.end } else cur) cs

def outsideMaintenance (a b : ℤ) (maint : List Span) : Int64 :=
  if b ≤ a then 0
  else
    match (maint.filterMap (clip a b)).insertionSort fun c c' => c.start ≤ c'.start with
    | [] => sub b a
    | c :: cs => subtractUnion (sub b a) c cs

/-- Five minutes. -/
def minExtension : Int64 := Int64.ofNat (5 * nsPerMinute)

def gaps : List HealthPoint → List Int64
  | p :: p' :: ps => sub p'.checkedAt p.checkedAt :: gaps (p' :: ps)
  | _ => []

/-- How long a status holds: three times the median gap, at least five minutes. -/
def maxExtension (points : List HealthPoint) : Int64 :=
  if points.length < 2 then minExtension
  else
    let sorted := (gaps points).insertionSort (· ≤ ·)
    max (3 * (sorted[sorted.length / 2]?).getD 0) minExtension

/-- What the loop over the points has added up. -/
structure Measure where
  up : Int64 := 0
  total : Int64 := 0
  outageDur : Int64 := 0
  inOutage : Bool := false
  recoveries : List Int64 := []
  deriving DecidableEq

/-- One point, whose status holds for `segment` outside maintenance. -/
def Measure.add (m : Measure) (status : Bytes) (segment : Int64) : Measure :=
  let total := m.total + segment
  let up := if status ≠ bytes "offline" then m.up + segment else m.up
  if status = bytes "offline" then
    let inOutage := m.inOutage || decide (0 < segment)
    ⟨up, total, if inOutage then m.outageDur + segment else m.outageDur, inOutage, m.recoveries⟩
  else if m.inOutage then ⟨up, total, 0, false, m.recoveries ++ [m.outageDur]⟩
  else { m with up := up, total := total }

/-- The loop; a point holds until the next one, or until the end of the window. -/
def measure (limit : Int64) (maint : List Span) (until' : ℤ) : Measure → List HealthPoint → Measure
  | m, [] => m
  | m, p :: ps =>
      let next := (ps.head?.map HealthPoint.checkedAt).getD until'
      let limitAt := p.checkedAt + limit.toInt
      let windowEnd := if limitAt < next then limitAt else next
      measure limit maint until'
        (m.add p.status (outsideMaintenance p.checkedAt windowEnd maint)) ps

/-- The numbers of an answer are floating-point numbers. -/
structure Floats (F : Type) where
  zero : F
  /-- The share of the first duration in the second one, in percent. -/
  percent : Int64 → Int64 → F
  seconds : Int64 → F

structure UptimeStats (F : Type) where
  connectorID : Bytes
  windowStart : Bytes
  windowEnd : Bytes
  checkCount : ℕ
  availabilityPct : F
  mttrSeconds : F
  outageCount : ℕ
  deriving DecidableEq

section Reads

variable {F : Type} (floats : Floats F)

/-- The answer without data. -/
def noData (connectorID : Bytes) (since until' : ℤ) : UptimeStats F where
  connectorID := connectorID
  windowStart := instantText since
  windowEnd := instantText until'
  checkCount := 0
  availabilityPct := floats.zero
  mttrSeconds := floats.zero
  outageCount := 0

def computeUptime (connectorID : Bytes) (points : List HealthPoint) (maint : List Span)
    (since until' : ℤ) : UptimeStats F :=
  if points = [] then noData floats connectorID since until'
  else
    let m := measure (maxExtension points) maint until' {} points
    if m.total ≤ 0 then noData floats connectorID since until'
    else
      { noData floats connectorID since until' with
        checkCount := points.length
        availabilityPct := floats.percent m.up m.total
        outageCount := m.recoveries.length
        mttrSeconds :=
          if 0 < m.recoveries.length then
            floats.seconds (m.recoveries.foldl (· + ·) 0 / Int64.ofNat m.recoveries.length)
          else floats.zero }

end Reads

/-! ### The reads -/

/-- What the two queries of a read return. -/
structure Rows where
  checks : List HealthCheckRecord
  windows : List MaintenanceWindowRecord

/-- The checks of connectors with `checked_at` in the window, by the texts. -/
def checkRows (db : Db) (connectorIDs : List Bytes) (since until' : ℤ) : List HealthCheckRecord :=
  db.checks.filter fun c => decide (c.connectorID ∈ connectorIDs) &&
    decide (instantText since ≤ c.checkedAt.text) && decide (c.checkedAt.text < instantText until')

/-- The maintenance windows of connectors that overlap the window, by the texts. -/
def windowRows (db : Db) (connectorIDs : List Bytes) (since until' : ℤ) :
    List MaintenanceWindowRecord :=
  db.windows.filter fun w => decide (instantText since < w.endsAt.text) &&
    decide (w.startsAt.text < instantText until') && decide (w.connectorID ∈ connectorIDs)

/-- The column by which the checks are sorted. -/
def HealthCheckRecord.time (c : HealthCheckRecord) : Bytes := c.checkedAt.text

/-- **What the queries may return**: the checks in ascending order of their times, and nothing else
is said of the orders. -/
structure Rows.Of (db : Db) (connectorIDs : List Bytes) (since until' : ℤ) (rows : Rows) : Prop where
  checks : Returned (· ≤ ·) HealthCheckRecord.time (checkRows db connectorIDs since until') rows.checks
  windows : rows.windows.Perm (windowRows db connectorIDs since until')

def scanHealthPoint (c : HealthCheckRecord) : Option HealthPoint :=
  (parseTime c.checkedAt.text).map fun ts => ⟨c.status, ts⟩

def loadHealthPoints (rows : Rows) : Option (List HealthPoint) := rows.checks.mapM scanHealthPoint

/-- The spans of a connector; a window whose texts cannot be read is left out. -/
def loadMaintenanceSpans (rows : Rows) (id : Bytes) : List Span :=
  (rows.windows.filter fun w => w.connectorID = id).filterMap fun w =>
    match parseTime w.startsAt.text, parseTime w.endsAt.text with
    | some st, some en => some ⟨st, en⟩
    | _, _ => none

/-- The instant that lies a duration before another one; negation may overflow. -/
def before (until' : ℤ) (d : Int64) : ℤ := until' + (-d).toInt

def longest (lookbacks : List Int64) : Int64 := lookbacks.foldl max 0

section Reads

variable {F : Type} (floats : Floats F)

/-- `GetConnectorUptime`, from what its queries return. -/
def getConnectorUptime (rows : Rows) (connectorID : Bytes) (since until' : ℤ) :
    Option (UptimeStats F) := do
  let points ← loadHealthPoints rows
  return computeUptime floats connectorID points (loadMaintenanceSpans rows connectorID) since until'

/-- `GetConnectorUptimeWindows`, from what its queries return for the longest window. -/
def getConnectorUptimeWindows (rows : Rows) (connectorID : Bytes) (until' : ℤ)
    (lookbacks : List Int64) : Option (List (UptimeStats F)) := do
  let points ← loadHealthPoints rows
  return lookbacks.map fun d =>
    let since := before until' d
    let i := points.findIdx fun p => ¬ p.checkedAt < since
    computeUptime floats connectorID (points.drop i) (loadMaintenanceSpans rows connectorID) since
      until'

/-- `GetFleetUptime`, from what its queries return for all connectors. -/
def getFleetUptime (rows : Rows) (connectorIDs : List Bytes) (since until' : ℤ) :
    Option (List (UptimeStats F)) :=
  if connectorIDs = [] then some []
  else do
    let points ← rows.checks.mapM fun c => (scanHealthPoint c).map fun p => (c.connectorID, p)
    return connectorIDs.map fun id =>
      computeUptime floats id ((points.filter fun row => row.1 = id).map Prod.snd)
        (loadMaintenanceSpans rows id) since until'

end Reads

end WiseLabz.Uptime
