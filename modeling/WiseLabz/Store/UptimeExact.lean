/-
**The uptime of a window, with times as integers.**

`WiseLabz/Store/Uptime.lean` has the program's arithmetic on 64-bit durations, which stop at the
ends of their range.  Here the same computation runs on integers.  The sweep over the maintenance
spans is a measure of what they leave uncovered, and the loop over the checks counts the outages:
the maximal runs of offline checks that hold for some time and are followed by another check.
Within a window of less than a third of the range the two computations agree.

Main definitions:

* `Uptime.outsideTime`, `Uptime.extensionTime`, `Uptime.Tally`, `Uptime.uptime` — **the
  computation**;
* `Uptime.uncovered` — the instants that no maintenance span covers;
* `Uptime.HoldLimit`, `Uptime.Measured` — **what is measured for each point**, written out;
* `Uptime.Outage` — a run of offline checks that was recovered from.

Main results:

* `Uptime.outsideTime_eq_card` — the sweep is a measure;
* `Uptime.tally_outages` — the loop counts the outages;
* `Uptime.computeUptime_eq` — the 64-bit computation agrees;
* `Uptime.uptime_exact` — **what the computation gives**.
-/

import WiseLabz.Store.Uptime
import Mathlib.Data.Finset.Card
import Mathlib.Algebra.Order.BigOperators.Group.List

set_option relaxedAutoImplicit false
set_option autoImplicit false

namespace WiseLabz.Uptime

open Lib

/-! ### The computation -/

/-- Takes the union of spans, the first of which is `cur`, off a total; they are sorted. -/
def subtractTime (total : ℤ) (cur : Span) : List Span → ℤ
  | [] => total - (cur.end - cur.start)
  | c :: cs =>
      if cur.end < c.start then subtractTime (total - (cur.end - cur.start)) c cs
      else subtractTime total (if cur.end < c.end then { cur with «end» := c.end } else cur) cs

/-- `outsideMaintenance`. -/
def outsideTime (a b : ℤ) (maint : List Span) : ℤ :=
  if b ≤ a then 0
  else
    match (maint.filterMap (clip a b)).insertionSort fun c c' => c.start ≤ c'.start with
    | [] => b - a
    | c :: cs => subtractTime (b - a) c cs

def gapTimes : List HealthPoint → List ℤ
  | p :: p' :: ps => (p'.checkedAt - p.checkedAt) :: gapTimes (p' :: ps)
  | _ => []

/-- `maxExtension`. -/
def extensionTime (points : List HealthPoint) : ℤ :=
  let least : ℤ := (5 * nsPerMinute : ℕ)
  if points.length < 2 then least
  else
    let sorted := (gapTimes points).insertionSort (· ≤ ·)
    max (3 * (sorted[sorted.length / 2]?).getD 0) least

/-- What the loop over the points has added up. -/
structure Tally where
  up : ℤ := 0
  total : ℤ := 0
  outageDur : ℤ := 0
  inOutage : Bool := false
  recoveries : List ℤ := []
  deriving DecidableEq

/-- One point, whose status holds for `segment` outside maintenance. -/
def Tally.add (m : Tally) (status : Bytes) (segment : ℤ) : Tally :=
  let total := m.total + segment
  let up := if status ≠ bytes "offline" then m.up + segment else m.up
  if status = bytes "offline" then
    let inOutage := m.inOutage || decide (0 < segment)
    ⟨up, total, if inOutage then m.outageDur + segment else m.outageDur, inOutage, m.recoveries⟩
  else if m.inOutage then ⟨up, total, 0, false, m.recoveries ++ [m.outageDur]⟩
  else { m with up := up, total := total }

/-- Where the status of a point stops to hold, if the next point follows at `next`. -/
def holdsUntil (limit : ℤ) (p : HealthPoint) (next : ℤ) : ℤ :=
  if p.checkedAt + limit < next then p.checkedAt + limit else next

/-- The points, each with the time outside maintenance for which its status holds. -/
def segments (limit : ℤ) (maint : List Span) (until' : ℤ) :
    List HealthPoint → List (HealthPoint × ℤ)
  | [] => []
  | p :: ps =>
      let next := (ps.head?.map HealthPoint.checkedAt).getD until'
      (p, outsideTime p.checkedAt (holdsUntil limit p next) maint) ::
        segments limit maint until' ps

/-- The loop. -/
def tally (segs : List (HealthPoint × ℤ)) : Tally :=
  segs.foldl (fun m s => m.add s.1.status s.2) {}

/-- An answer with data: the checks, the times, the outages and the mean time to recovery. -/
structure UptimeTimes where
  checkCount : ℕ
  up : ℤ
  total : ℤ
  outageCount : ℕ
  mttr : ℤ
  deriving DecidableEq

/-- The answer without data. -/
def noTimes : UptimeTimes := ⟨0, 0, 0, 0, 0⟩

/-- **The uptime from given points**: `computeUptime`. -/
def uptime (points : List HealthPoint) (maint : List Span) (until' : ℤ) : UptimeTimes :=
  if points = [] then noTimes
  else
    let m := tally (segments (extensionTime points) maint until' points)
    if m.total ≤ 0 then noTimes
    else
      { checkCount := points.length
        up := m.up
        total := m.total
        outageCount := m.recoveries.length
        mttr := if 0 < m.recoveries.length then m.recoveries.sum / m.recoveries.length else 0 }

/-! ### The measure -/

/-- The instants of `[a, b)`. -/
def instants (a b : ℤ) : Finset ℤ :=
  (Finset.range (b - a).toNat).map ⟨fun n : ℕ => a + n, fun m n h => by simpa using h⟩

theorem mem_instants {a b t : ℤ} : t ∈ instants a b ↔ a ≤ t ∧ t < b := by
  rw [instants, Finset.mem_map]
  constructor
  · rintro ⟨n, hn, rfl⟩
    have := Finset.mem_range.1 hn
    change a ≤ a + n ∧ a + n < b
    omega
  · rintro ⟨hat, htb⟩
    refine ⟨(t - a).toNat, Finset.mem_range.2 (by omega), ?_⟩
    change a + ((t - a).toNat : ℤ) = t
    omega

theorem card_instants (a b : ℤ) : (instants a b).card = (b - a).toNat := by
  rw [instants, Finset.card_map, Finset.card_range]

/-- The instants of `[a, b)` that no span covers. -/
def uncovered (a b : ℤ) (maint : List Span) : Finset ℤ :=
  (instants a b).filter fun t => ∀ m ∈ maint, ¬ (m.start ≤ t ∧ t < m.end)

/-- The instants of `[a, b)` that spans cover. -/
def covered (a b : ℤ) (spans : List Span) : Finset ℤ :=
  (instants a b).filter fun t => ∃ m ∈ spans, m.start ≤ t ∧ t < m.end

theorem mem_covered {a b t : ℤ} {spans : List Span} :
    t ∈ covered a b spans ↔ (a ≤ t ∧ t < b) ∧ ∃ m ∈ spans, m.start ≤ t ∧ t < m.end := by
  rw [covered, Finset.mem_filter, mem_instants]

theorem mem_uncovered {a b t : ℤ} {maint : List Span} :
    t ∈ uncovered a b maint ↔
      (a ≤ t ∧ t < b) ∧ ∀ m ∈ maint, ¬ (m.start ≤ t ∧ t < m.end) := by
  rw [uncovered, Finset.mem_filter, mem_instants]

/-- What is not covered is uncovered. -/
theorem card_uncovered {a b : ℤ} (h : a ≤ b) (maint : List Span) :
    ((uncovered a b maint).card : ℤ) = b - a - (covered a b maint).card := by
  have hnot : uncovered a b maint =
      (instants a b).filter fun t => ¬ ∃ m ∈ maint, m.start ≤ t ∧ t < m.end := by
    refine Finset.filter_congr fun t _ => ?_
    simp only [not_exists, not_and]
  have hsum := Finset.card_filter_add_card_filter_not (s := instants a b)
    (fun t => ∃ m ∈ maint, m.start ≤ t ∧ t < m.end)
  rw [← hnot, card_instants] at hsum
  rw [covered]
  omega

theorem card_covered_singleton {a b : ℤ} {m : Span}
    (h : a ≤ m.start ∧ m.start ≤ m.end ∧ m.end ≤ b) :
    ((covered a b [m]).card : ℤ) = m.end - m.start := by
  have heq : covered a b [m] = instants m.start m.end := by
    ext t
    simp only [mem_covered, mem_instants, List.mem_singleton, exists_eq_left]
    omega
  rw [heq, card_instants]
  omega

/-- A span that lies before all others covers instants of its own. -/
theorem card_covered_cons {a b : ℤ} {cur : Span} {cs : List Span}
    (h : ∀ c ∈ cs, cur.end ≤ c.start) :
    (covered a b (cur :: cs)).card = (covered a b [cur]).card + (covered a b cs).card := by
  have hdisjoint : Disjoint (covered a b [cur]) (covered a b cs) := by
    refine Finset.disjoint_left.2 fun t ht ht' => ?_
    obtain ⟨-, c, hc, hstart, -⟩ := mem_covered.1 ht'
    obtain ⟨-, m, hm, -, hend⟩ := mem_covered.1 ht
    obtain rfl := List.mem_singleton.1 hm
    have := h c hc
    omega
  rw [← Finset.card_union_of_disjoint hdisjoint]
  congr 1
  ext t
  simp [mem_covered, and_or_left]

theorem covered_congr {a b : ℤ} {spans spans' : List Span}
    (h : ∀ t, (∃ m ∈ spans, m.start ≤ t ∧ t < m.end) ↔ ∃ m ∈ spans', m.start ≤ t ∧ t < m.end) :
    covered a b spans = covered a b spans' :=
  Finset.filter_congr fun t _ => h t

/-- **The sweep** takes what is covered off the total. -/
theorem subtractTime_eq {a b : ℤ} {cs : List Span} {cur : Span}
    (hcur : a ≤ cur.start ∧ cur.start ≤ cur.end ∧ cur.end ≤ b)
    (hcs : ∀ c ∈ cs, a ≤ c.start ∧ c.start ≤ c.end ∧ c.end ≤ b)
    (hle : ∀ c ∈ cs, cur.start ≤ c.start)
    (hsorted : cs.Pairwise fun c c' => c.start ≤ c'.start) (total : ℤ) :
    subtractTime total cur cs = total - ((covered a b (cur :: cs)).card : ℤ) := by
  induction cs generalizing cur total with
  | nil => rw [subtractTime, card_covered_singleton hcur]
  | cons c cs ih =>
      obtain ⟨hfirst, hrest⟩ := List.pairwise_cons.1 hsorted
      have hc := hcs c List.mem_cons_self
      have hcs' := fun c' hc' => hcs c' (List.mem_cons_of_mem c hc')
      rw [subtractTime]
      split
      · next hgap =>
          -- the spans from `c` on begin after the current one
          have hbefore : ∀ c' ∈ c :: cs, cur.end ≤ c'.start := by
            intro c' hc'
            rcases List.mem_cons.1 hc' with rfl | hc'
            · omega
            · have := hfirst c' hc'
              omega
          rw [ih hc hcs' hfirst hrest, card_covered_cons hbefore, Nat.cast_add,
            card_covered_singleton hcur]
          omega
      · next hgap =>
          have hstart := hle c List.mem_cons_self
          have hspan : (if cur.end < c.end then { cur with «end» := c.end } else cur) =
              (⟨cur.start, if cur.end < c.end then c.end else cur.end⟩ : Span) := by
            split <;> rfl
          have hjoin : covered a b
              (⟨cur.start, if cur.end < c.end then c.end else cur.end⟩ :: cs) =
                covered a b (cur :: c :: cs) := by
            refine covered_congr fun t => ?_
            simp only [List.mem_cons, exists_eq_or_imp]
            rw [← or_assoc]
            refine or_congr_left ?_
            split <;> omega
          rw [hspan, ih ?_ hcs' (fun c' hc' => ?_) hrest, hjoin]
          · dsimp only
            split <;> omega
          · exact hstart.trans (hfirst c' hc')

instance : Std.Total fun c c' : Span => c.start ≤ c'.start :=
  ⟨fun c c' => le_total c.start c'.start⟩

instance : IsTrans Span fun c c' => c.start ≤ c'.start := ⟨fun _ _ _ => le_trans⟩

theorem clip_eq (a b : ℤ) (m : Span) : clip a b m =
    if max a m.start < min b m.end then some ⟨max a m.start, min b m.end⟩ else none := by
  have hstart : (if m.start < a then a else m.start) = max a m.start := by split <;> omega
  have hend : (if b < m.end then b else m.end) = min b m.end := by split <;> omega
  rw [clip, hstart, hend]

theorem clip_eq_some {a b : ℤ} {m c : Span} :
    clip a b m = some c ↔ c.start = max a m.start ∧ c.end = min b m.end ∧ c.start < c.end := by
  cases c
  rw [clip_eq]
  constructor
  · intro h
    split at h
    · next hlt =>
        obtain ⟨rfl, rfl⟩ := Span.mk.inj (Option.some.inj h)
        exact ⟨rfl, rfl, hlt⟩
    · cases h
  · rintro ⟨rfl, rfl, hlt⟩
    exact if_pos hlt

/-- Clipping changes nothing inside. -/
theorem covered_clip (a b : ℤ) (maint : List Span) :
    covered a b (maint.filterMap (clip a b)) = covered a b maint := by
  ext t
  simp only [mem_covered, List.mem_filterMap]
  refine and_congr_right fun ht => ?_
  constructor
  · rintro ⟨c, ⟨m, hm, hclip⟩, hc⟩
    obtain ⟨hstart, hend, -⟩ := clip_eq_some.1 hclip
    exact ⟨m, hm, by omega⟩
  · rintro ⟨m, hm, hmt⟩
    refine ⟨⟨max a m.start, min b m.end⟩, ⟨m, hm, clip_eq_some.2 ⟨rfl, rfl, ?_⟩⟩, ?_⟩
    · dsimp only; omega
    · dsimp only; omega

/-- **The sweep is a measure**: of the instants that no span covers. -/
theorem outsideTime_eq_card (a b : ℤ) (maint : List Span) :
    outsideTime a b maint = ((uncovered a b maint).card : ℤ) := by
  rw [outsideTime]
  split
  · next hle =>
      have hempty : uncovered a b maint = ∅ := Finset.eq_empty_of_forall_notMem fun t ht => by
        have := (mem_uncovered.1 ht).1
        omega
      rw [hempty]
      rfl
  · next hlt =>
      rw [card_uncovered (by omega), ← covered_clip]
      generalize hsort : (maint.filterMap (clip a b)).insertionSort
        (fun c c' => c.start ≤ c'.start) = sorted
      have hmem : ∀ c, c ∈ maint.filterMap (clip a b) ↔ c ∈ sorted := fun c => by
        rw [← hsort, List.mem_insertionSort]
      have hin : ∀ c ∈ sorted, a ≤ c.start ∧ c.start ≤ c.end ∧ c.end ≤ b := by
        intro c hc
        obtain ⟨m, -, hclip⟩ := List.mem_filterMap.1 ((hmem c).2 hc)
        obtain ⟨hstart, hend, hpos⟩ := clip_eq_some.1 hclip
        omega
      have hsorted : sorted.Pairwise fun c c' => c.start ≤ c'.start := by
        rw [← hsort]
        exact List.pairwise_insertionSort _ _
      have hcover : covered a b (maint.filterMap (clip a b)) = covered a b sorted :=
        covered_congr fun t => by simp only [hmem]
      rw [hcover]
      cases sorted with
      | nil => simp [covered]
      | cons c cs =>
          obtain ⟨hfirst, hrest⟩ := List.pairwise_cons.1 hsorted
          exact subtractTime_eq (hin c List.mem_cons_self)
            (fun c' hc' => hin c' (List.mem_cons_of_mem _ hc')) hfirst hrest _

theorem outsideTime_nonneg (a b : ℤ) (maint : List Span) : 0 ≤ outsideTime a b maint := by
  rw [outsideTime_eq_card]
  exact Int.natCast_nonneg _

theorem outsideTime_le {a b : ℤ} (h : a ≤ b) (maint : List Span) :
    outsideTime a b maint ≤ b - a := by
  rw [outsideTime_eq_card, card_uncovered h]
  omega

/-- The measure of an interval is that of its parts. -/
theorem outsideTime_add {a b c : ℤ} (hab : a ≤ b) (hbc : b ≤ c) (maint : List Span) :
    outsideTime a c maint = outsideTime a b maint + outsideTime b c maint := by
  have hdisjoint : Disjoint (uncovered a b maint) (uncovered b c maint) := by
    refine Finset.disjoint_left.2 fun t ht ht' => ?_
    have := (mem_uncovered.1 ht).1
    have := (mem_uncovered.1 ht').1
    omega
  rw [outsideTime_eq_card, outsideTime_eq_card, outsideTime_eq_card, ← Nat.cast_add,
    ← Finset.card_union_of_disjoint hdisjoint]
  congr 2
  ext t
  simp only [Finset.mem_union, mem_uncovered, ← or_and_right]
  exact and_congr_left' (by omega)

/-- The spans cover the same instants of `[a, b)`. -/
def SameCover (a b : ℤ) (maint maint' : List Span) : Prop :=
  ∀ t, a ≤ t → t < b → ((∃ m ∈ maint, m.start ≤ t ∧ t < m.end) ↔
    ∃ m ∈ maint', m.start ≤ t ∧ t < m.end)

/-- **The measure depends on the union** of the spans only. -/
theorem outsideTime_congr {a b : ℤ} {maint maint' : List Span} (h : SameCover a b maint maint') :
    outsideTime a b maint = outsideTime a b maint' := by
  have heq : uncovered a b maint = uncovered a b maint' := by
    refine Finset.filter_congr fun t ht => ?_
    obtain ⟨hat, htb⟩ := mem_instants.1 ht
    have := not_congr (h t hat htb)
    simpa only [not_exists, not_and] using this
  rw [outsideTime_eq_card, outsideTime_eq_card, heq]

theorem SameCover.perm {maint maint' : List Span} (h : maint.Perm maint') (a b : ℤ) :
    SameCover a b maint maint' := fun t _ _ => by
  simp only [h.mem_iff]

/-- A span that is cut in two covers the same instants. -/
theorem SameCover.split {s m e : ℤ} (hsm : s ≤ m) (hme : m ≤ e) (maint : List Span) (a b : ℤ) :
    SameCover a b (⟨s, e⟩ :: maint) (⟨s, m⟩ :: ⟨m, e⟩ :: maint) := fun t _ _ => by
  simp only [List.mem_cons, exists_eq_or_imp]
  rw [← or_assoc]
  exact or_congr (by omega) Iff.rfl

/-! ### The loop over the points -/

theorem tally_append (segs : List (HealthPoint × ℤ)) (s : HealthPoint × ℤ) :
    tally (segs ++ [s]) = (tally segs).add s.1.status s.2 := by
  rw [tally, List.foldl_append]
  rfl

def IsOffline (s : HealthPoint × ℤ) : Prop := s.1.status = bytes "offline"

instance (s : HealthPoint × ℤ) : Decidable (IsOffline s) :=
  inferInstanceAs (Decidable (_ = _))

/-- The time that the points from `i` on, up to `j`, are measured. -/
def timeBetween (segs : List (HealthPoint × ℤ)) (i j : ℕ) : ℤ :=
  (((segs.take j).drop i).map Prod.snd).sum

/-- The points from `i` on, up to `j`, are **a maximal run of offline points** that begins the list
or follows another point. -/
structure OfflineRun (segs : List (HealthPoint × ℤ)) (i j : ℕ) : Prop where
  lt : i < j
  offline : ∀ k, i ≤ k → k < j → ∃ s, segs[k]? = some s ∧ IsOffline s
  first : i = 0 ∨ ∃ s, segs[i - 1]? = some s ∧ ¬ IsOffline s

/-- **An outage**: a maximal run of offline points that contains measured time and is followed by a
point that is not offline. -/
structure Outage (segs : List (HealthPoint × ℤ)) (i j : ℕ) : Prop extends OfflineRun segs i j where
  recovered : ∃ s, segs[j]? = some s ∧ ¬ IsOffline s
  measured : 0 < timeBetween segs i j

section Runs

variable {segs : List (HealthPoint × ℤ)} {s : HealthPoint × ℤ} {i j : ℕ}

theorem timeBetween_append (h : j ≤ segs.length) :
    timeBetween (segs ++ [s]) i j = timeBetween segs i j := by
  rw [timeBetween, timeBetween, List.take_append_of_le_length h]

theorem timeBetween_snoc (h : i ≤ segs.length) :
    timeBetween (segs ++ [s]) i (segs.length + 1) = timeBetween segs i segs.length + s.2 := by
  have htake : (segs ++ [s]).take (segs.length + 1) = segs ++ [s] :=
    List.take_of_length_le (by simp)
  rw [timeBetween, timeBetween, htake, List.take_length, List.drop_append_of_le_length h]
  simp

theorem timeBetween_self : timeBetween segs i i = 0 := by
  have hnil : (segs.take i).drop i = [] := List.drop_eq_nil_of_le (List.length_take_le _ _)
  rw [timeBetween, hnil]
  rfl

theorem OfflineRun.le (h : OfflineRun segs i j) : j ≤ segs.length := by
  obtain ⟨s, hs, -⟩ := h.offline (j - 1) (Nat.le_sub_one_of_lt h.lt) (Nat.sub_one_lt_of_lt h.lt)
  have := (List.getElem?_eq_some_iff.1 hs).1
  omega

/-- A run is the only one that ends where it does. -/
theorem OfflineRun.unique {i' : ℕ} (h : OfflineRun segs i j) (h' : OfflineRun segs i' j) :
    i = i' := by
  have hno : ∀ {a b : ℕ}, OfflineRun segs a j → OfflineRun segs b j → ¬ a < b := by
    intro a b ha hb hlt
    rcases hb.first with h0 | ⟨s, hs, hnot⟩
    · omega
    · have := hb.lt
      obtain ⟨s', hs', hoff⟩ := ha.offline (b - 1) (by omega) (by omega)
      obtain rfl := Option.some.inj (hs.symm.trans hs')
      exact hnot hoff
  exact le_antisymm (not_lt.1 (hno h' h)) (not_lt.1 (hno h h'))

/-- A later point does not change the runs before it. -/
theorem offlineRun_append (h : j ≤ segs.length) :
    OfflineRun (segs ++ [s]) i j ↔ OfflineRun segs i j := by
  have hget : ∀ k < j, (segs ++ [s])[k]? = segs[k]? := fun k hk =>
    List.getElem?_append_left (lt_of_lt_of_le hk h)
  constructor
  · rintro ⟨hlt, hoff, hfirst⟩
    refine ⟨hlt, fun k hik hkj => ?_, hfirst.imp_right fun hs => ?_⟩
    · rw [← hget k hkj]
      exact hoff k hik hkj
    · rwa [hget (i - 1) (by omega)] at hs
  · rintro ⟨hlt, hoff, hfirst⟩
    refine ⟨hlt, fun k hik hkj => ?_, hfirst.imp_right fun hs => ?_⟩
    · rw [hget k hkj]
      exact hoff k hik hkj
    · rwa [hget (i - 1) (by omega)]

/-- The runs that end with a last point. -/
theorem offlineRun_snoc : OfflineRun (segs ++ [s]) i (segs.length + 1) ↔
    IsOffline s ∧ (OfflineRun segs i segs.length ∨
      i = segs.length ∧ (i = 0 ∨ ∃ s', segs[i - 1]? = some s' ∧ ¬ IsOffline s')) := by
  have hlast : (segs ++ [s])[segs.length]? = some s := by simp
  have hget : ∀ k < segs.length, (segs ++ [s])[k]? = segs[k]? := fun k hk =>
    List.getElem?_append_left hk
  constructor
  · rintro ⟨hlt, hoff, hfirst⟩
    obtain ⟨s', hs', hs⟩ := hoff segs.length (by omega) (by omega)
    obtain rfl := Option.some.inj (hlast.symm.trans hs')
    refine ⟨hs, ?_⟩
    have hfirst' : i = 0 ∨ ∃ s', segs[i - 1]? = some s' ∧ ¬ IsOffline s' := by
      rcases hfirst with h0 | hs
      · exact .inl h0
      · by_cases h0 : i = 0
        · exact .inl h0
        · rw [hget (i - 1) (by omega)] at hs
          exact .inr hs
    by_cases hi : i = segs.length
    · exact .inr ⟨hi, hfirst'⟩
    · refine .inl ⟨by omega, fun k hik hk => ?_, hfirst'⟩
      rw [← hget k hk]
      exact hoff k hik (by omega)
  · rintro ⟨hs, hrun | ⟨rfl, hfirst⟩⟩
    · have hlt := hrun.lt
      refine ⟨by omega, fun k hik hk => ?_, hrun.first.imp_right fun hs => ?_⟩
      · rcases Nat.lt_succ_iff_lt_or_eq.1 hk with hk | rfl
        · rw [hget k hk]
          exact hrun.offline k hik hk
        · exact ⟨s, hlast, hs⟩
      · rwa [hget (i - 1) (by omega)]
    · refine ⟨by omega, fun k hik hk => ?_, ?_⟩
      · obtain rfl : k = segs.length := by omega
        exact ⟨s, hlast, hs⟩
      · rcases hfirst with h0 | ⟨s', hs', hnot⟩
        · exact .inl h0
        · have := (List.getElem?_eq_some_iff.1 hs').1
          exact .inr ⟨s', by rw [hget _ this]; exact hs', hnot⟩

/-- The outages with a last point: it may end one. -/
theorem outage_snoc : Outage (segs ++ [s]) i j ↔ Outage segs i j ∨
    j = segs.length ∧ ¬ IsOffline s ∧ OfflineRun segs i segs.length ∧
      0 < timeBetween segs i segs.length := by
  have hlast : (segs ++ [s])[segs.length]? = some s := by simp
  constructor
  · rintro ⟨hrun, ⟨s', hs', hnot⟩, hpos⟩
    have hj := (List.getElem?_eq_some_iff.1 hs').1
    rw [List.length_append, List.length_singleton] at hj
    rw [offlineRun_append (Nat.lt_succ_iff.1 hj)] at hrun
    rw [timeBetween_append (Nat.lt_succ_iff.1 hj)] at hpos
    rcases Nat.lt_succ_iff_lt_or_eq.1 hj with hlt | rfl
    · rw [List.getElem?_append_left hlt] at hs'
      exact .inl ⟨hrun, ⟨s', hs', hnot⟩, hpos⟩
    · obtain rfl := Option.some.inj (hlast.symm.trans hs')
      exact .inr ⟨rfl, hnot, hrun, hpos⟩
  · rintro (⟨hrun, ⟨s', hs', hnot⟩, hpos⟩ | ⟨rfl, hnot, hrun, hpos⟩)
    · have hj := (List.getElem?_eq_some_iff.1 hs').1
      refine ⟨(offlineRun_append hj.le).2 hrun, ⟨s', ?_, hnot⟩, ?_⟩
      · rw [List.getElem?_append_left hj]
        exact hs'
      · rwa [timeBetween_append hj.le]
    · refine ⟨(offlineRun_append le_rfl).2 hrun, ⟨s, hlast, hnot⟩, ?_⟩
      rwa [timeBetween_append le_rfl]

theorem Outage.lt_length (h : Outage segs i j) : j < segs.length := by
  obtain ⟨s, hs, -⟩ := h.recovered
  exact (List.getElem?_eq_some_iff.1 hs).1

/-- A last point that is offline ends a run. -/
theorem exists_offlineRun (segs : List (HealthPoint × ℤ)) (hs : IsOffline s) :
    ∃ i ≤ segs.length, OfflineRun (segs ++ [s]) i (segs.length + 1) := by
  induction segs using List.reverseRecOn generalizing s with
  | nil => exact ⟨0, le_rfl, offlineRun_snoc.2 ⟨hs, .inr ⟨rfl, .inl rfl⟩⟩⟩
  | append_singleton segs s' ih =>
      by_cases hs' : IsOffline s'
      · obtain ⟨i, hi, hrun⟩ := ih hs'
        refine ⟨i, hi.trans (by simp), offlineRun_snoc.2 ⟨hs, .inl ?_⟩⟩
        rw [List.length_append]
        exact hrun
      · refine ⟨(segs ++ [s']).length, le_rfl,
          offlineRun_snoc.2 ⟨hs, .inr ⟨rfl, .inr ⟨s', ?_, hs'⟩⟩⟩⟩
        simp

end Runs

/-- What the loop holds after some points: the outages are listed in the order of their ends, and
the run that has not ended is in progress if it contains measured time. -/
structure TallyOk (segs : List (HealthPoint × ℤ)) (m : Tally) : Prop where
  total : m.total = (segs.map Prod.snd).sum
  up : m.up = ((segs.filter fun s => ¬ IsOffline s).map Prod.snd).sum
  outages : ∃ outs : List (ℕ × ℕ), outs.Nodup ∧ (∀ i j, (i, j) ∈ outs ↔ Outage segs i j) ∧
    m.recoveries = outs.map fun o => timeBetween segs o.1 o.2
  running : m.inOutage = true → ∃ i, OfflineRun segs i segs.length ∧
    m.outageDur = timeBetween segs i segs.length ∧ 0 < m.outageDur
  idle : m.inOutage = false → m.outageDur = 0 ∧
    ∀ i, OfflineRun segs i segs.length → timeBetween segs i segs.length = 0

/-- The listed outages, when a last point ends none. -/
theorem outages_snoc {segs : List (HealthPoint × ℤ)} {s : HealthPoint × ℤ} {recoveries : List ℤ}
    (h : ∃ outs : List (ℕ × ℕ), outs.Nodup ∧ (∀ i j, (i, j) ∈ outs ↔ Outage segs i j) ∧
      recoveries = outs.map fun o => timeBetween segs o.1 o.2)
    (hnone : ∀ i, OfflineRun segs i segs.length → ¬ IsOffline s →
      timeBetween segs i segs.length = 0) :
    ∃ outs : List (ℕ × ℕ), outs.Nodup ∧ (∀ i j, (i, j) ∈ outs ↔ Outage (segs ++ [s]) i j) ∧
      recoveries = outs.map fun o => timeBetween (segs ++ [s]) o.1 o.2 := by
  obtain ⟨outs, hnodup, hmem, hrec⟩ := h
  refine ⟨outs, hnodup, fun i j => ?_, ?_⟩
  · rw [hmem, outage_snoc]
    refine (or_iff_left ?_).symm
    rintro ⟨-, hs, hrun, hpos⟩
    exact absurd (hnone i hrun hs) hpos.ne'
  · rw [hrec]
    refine List.map_congr_left fun o ho => (timeBetween_append ?_).symm
    exact ((hmem o.1 o.2).1 ho).lt_length.le

/-- **One point.** -/
theorem TallyOk.add {segs : List (HealthPoint × ℤ)} {m : Tally} (h : TallyOk segs m)
    {s : HealthPoint × ℤ} (hs : 0 ≤ s.2) : TallyOk (segs ++ [s]) (m.add s.1.status s.2) := by
  by_cases hoff : s.1.status = bytes "offline"
  · have hofs : IsOffline s := hoff
    have hadd : m.add s.1.status s.2 =
        ⟨m.up, m.total + s.2,
          if m.inOutage || decide (0 < s.2) then m.outageDur + s.2 else m.outageDur,
          m.inOutage || decide (0 < s.2), m.recoveries⟩ := by
      simp [Tally.add, hoff]
    rw [hadd]
    refine ⟨by simp [h.total], by simp [h.up, hofs], outages_snoc h.outages fun _ _ hs =>
      absurd hofs hs, fun hin => ?_, fun hin => ?_⟩
    · rw [List.length_append]
      dsimp only at hin ⊢
      rw [if_pos hin]
      cases hrun : m.inOutage with
      | true =>
          obtain ⟨i, hi, hdur, hpos⟩ := h.running hrun
          refine ⟨i, offlineRun_snoc.2 ⟨hofs, .inl hi⟩, ?_, by omega⟩
          rw [hdur, List.length_singleton, timeBetween_snoc hi.lt.le]
      | false =>
          obtain ⟨hdur, hzero⟩ := h.idle hrun
          rw [hrun, Bool.false_or, decide_eq_true_eq] at hin
          obtain ⟨i, hi, hi'⟩ := exists_offlineRun segs hofs
          refine ⟨i, hi', ?_, by omega⟩
          have htime : timeBetween segs i segs.length = 0 := by
            rcases (offlineRun_snoc.1 hi').2 with hi'' | ⟨rfl, -⟩
            · exact hzero i hi''
            · exact timeBetween_self
          rw [hdur, List.length_singleton, timeBetween_snoc hi, htime]
    · rw [List.length_append]
      dsimp only at hin ⊢
      rw [if_neg (by simp [hin])]
      rw [Bool.or_eq_false_iff, decide_eq_false_iff_not] at hin
      obtain ⟨hdur, hzero⟩ := h.idle hin.1
      refine ⟨hdur, fun i hi => ?_⟩
      have hle : i ≤ segs.length := by
        have := hi.lt
        rw [List.length_singleton] at this
        omega
      rw [List.length_singleton, timeBetween_snoc hle]
      rcases (offlineRun_snoc.1 hi).2 with hi' | ⟨rfl, -⟩
      · rw [hzero i hi']
        omega
      · rw [timeBetween_self]
        omega
  · have hofs : ¬ IsOffline s := hoff
    have hno : ∀ i, ¬ OfflineRun (segs ++ [s]) i (segs ++ [s]).length := by
      intro i hi
      rw [List.length_append, List.length_singleton] at hi
      exact hofs (offlineRun_snoc.1 hi).1
    cases hrun : m.inOutage with
    | true =>
        have hadd : m.add s.1.status s.2 =
            ⟨m.up + s.2, m.total + s.2, 0, false, m.recoveries ++ [m.outageDur]⟩ := by
          simp [Tally.add, hoff, hrun]
        rw [hadd]
        refine ⟨by simp [h.total], by simp [h.up, hofs], ?_,
          fun hin => absurd hin Bool.false_ne_true,
          fun _ => ⟨rfl, fun i hi => absurd hi (hno i)⟩⟩
        obtain ⟨i, hi, hdur, hpos⟩ := h.running hrun
        obtain ⟨outs, hnodup, hmem, hrec⟩ := h.outages
        have hnew : (i, segs.length) ∉ outs := fun hin =>
          lt_irrefl _ ((hmem i segs.length).1 hin).lt_length
        refine ⟨outs ++ [(i, segs.length)], ?_, fun i' j => ?_, ?_⟩
        · exact List.nodup_append.2 ⟨hnodup, List.nodup_singleton _, fun a ha b hb => by
            rw [List.mem_singleton.1 hb]
            exact fun heq => hnew (heq ▸ ha)⟩
        · rw [List.mem_append, List.mem_singleton, hmem, outage_snoc, Prod.mk.injEq]
          refine or_congr_right ?_
          constructor
          · rintro ⟨rfl, rfl⟩
            exact ⟨rfl, hofs, hi, hdur ▸ hpos⟩
          · rintro ⟨rfl, -, hi', -⟩
            exact ⟨hi'.unique hi, rfl⟩
        · rw [List.map_append, hrec]
          dsimp only
          congr 1
          · refine List.map_congr_left fun o ho => (timeBetween_append ?_).symm
            exact ((hmem o.1 o.2).1 ho).lt_length.le
          · rw [List.map_singleton, hdur, timeBetween_append le_rfl]
    | false =>
        have hadd : m.add s.1.status s.2 =
            { m with up := m.up + s.2, total := m.total + s.2 } := by
          simp [Tally.add, hoff, hrun]
        obtain ⟨hdur, hzero⟩ := h.idle hrun
        rw [hadd]
        refine ⟨by simp [h.total], by simp [h.up, hofs],
          outages_snoc h.outages fun i hi _ => hzero i hi, fun hin => ?_,
          fun _ => ⟨hdur, fun i hi => absurd hi (hno i)⟩⟩
        dsimp only at hin
        rw [hrun] at hin
        cases hin

/-- **The loop.** -/
theorem tally_ok {segs : List (HealthPoint × ℤ)} (h : ∀ s ∈ segs, 0 ≤ s.2) :
    TallyOk segs (tally segs) := by
  induction segs using List.reverseRecOn with
  | nil =>
      refine ⟨rfl, rfl, ⟨[], List.nodup_nil, fun i j => ?_, rfl⟩,
        fun hin => absurd hin Bool.false_ne_true,
        fun _ => ⟨rfl, fun i hi => absurd hi.lt (Nat.not_lt_zero i)⟩⟩
      exact iff_of_false List.not_mem_nil fun ho => Nat.not_lt_zero j ho.lt_length
  | append_singleton segs s ih =>
      rw [tally_append]
      exact (ih fun s' hs' => h s' (List.mem_append_left _ hs')).add
        (h s (List.mem_append_right _ List.mem_cons_self))

/-! ### The time of a window -/

/-- The points are in ascending order, and none is after the end. -/
structure Ascending (points : List HealthPoint) (until' : ℤ) : Prop where
  sorted : points.Pairwise fun p p' => p.checkedAt ≤ p'.checkedAt
  within : ∀ p ∈ points, p.checkedAt ≤ until'

theorem Ascending.tail {p : HealthPoint} {ps : List HealthPoint} {until' : ℤ}
    (h : Ascending (p :: ps) until') : Ascending ps until' :=
  ⟨(List.pairwise_cons.1 h.sorted).2, fun p' hp' => h.within p' (List.mem_cons_of_mem _ hp')⟩

/-- Where the next point is, or the end of the window. -/
def nextAt (ps : List HealthPoint) (until' : ℤ) : ℤ :=
  (ps.head?.map HealthPoint.checkedAt).getD until'

theorem Ascending.le_nextAt {p : HealthPoint} {ps : List HealthPoint} {until' : ℤ}
    (h : Ascending (p :: ps) until') :
    p.checkedAt ≤ nextAt ps until' ∧ nextAt ps until' ≤ until' := by
  cases ps with
  | nil => exact ⟨h.within p List.mem_cons_self, le_rfl⟩
  | cons p' ps =>
      exact ⟨(List.pairwise_cons.1 h.sorted).1 p' List.mem_cons_self,
        h.within p' (List.mem_cons_of_mem _ List.mem_cons_self)⟩

theorem holdsUntil_le (limit : ℤ) (p : HealthPoint) (next : ℤ) :
    holdsUntil limit p next ≤ next := by
  unfold holdsUntil
  split <;> omega

theorem segment_le {p : HealthPoint} {next : ℤ} (h : p.checkedAt ≤ next) (limit : ℤ)
    (maint : List Span) :
    outsideTime p.checkedAt (holdsUntil limit p next) maint ≤ next - p.checkedAt := by
  have hle := holdsUntil_le limit p next
  by_cases hpos : p.checkedAt ≤ holdsUntil limit p next
  · have := outsideTime_le hpos maint
    omega
  · rw [outsideTime, if_pos (by omega)]
    omega

/-- The measured times of the points add up to no more than the rest of the window. -/
theorem sum_segments_le {points : List HealthPoint} {until' : ℤ} (h : Ascending points until')
    (limit : ℤ) (maint : List Span) :
    ((segments limit maint until' points).map Prod.snd).sum ≤ until' - nextAt points until' := by
  induction points with
  | nil => simp [segments, nextAt]
  | cons p ps ih =>
      have hle := h.le_nextAt
      have hseg := segment_le hle.1 limit maint
      have ih := ih h.tail
      rw [segments, List.map_cons, List.sum_cons]
      change outsideTime p.checkedAt (holdsUntil limit p (nextAt ps until')) maint +
        ((segments limit maint until' ps).map Prod.snd).sum ≤ until' - p.checkedAt
      omega

theorem segments_nonneg {limit : ℤ} {maint : List Span} {until' : ℤ} (points : List HealthPoint) :
    ∀ s ∈ segments limit maint until' points, 0 ≤ s.2 := by
  induction points with
  | nil => exact fun s hs => absurd hs List.not_mem_nil
  | cons p ps ih =>
      intro s hs
      rcases List.mem_cons.1 hs with rfl | hs
      · exact outsideTime_nonneg _ _ _
      · exact ih s hs

/-- Some of the points are measured for no longer than all of them. -/
theorem sum_le_of_sublist {l l' : List (HealthPoint × ℤ)} (hl : l.Sublist l')
    (h : ∀ s ∈ l', 0 ≤ s.2) : (l.map Prod.snd).sum ≤ (l'.map Prod.snd).sum :=
  (hl.map Prod.snd).sum_le_sum fun t ht => by
    obtain ⟨s, hs, rfl⟩ := List.mem_map.1 ht
    exact h s hs

/-- The spans count only through the instants of the window that they cover. -/
theorem segments_congr {points : List HealthPoint} {since until' : ℤ} {maint maint' : List Span}
    (h : Ascending points until') (hsince : ∀ p ∈ points, since ≤ p.checkedAt)
    (hcover : SameCover since until' maint maint') (limit : ℤ) :
    segments limit maint until' points = segments limit maint' until' points := by
  induction points with
  | nil => rfl
  | cons p ps ih =>
      have hp := hsince p List.mem_cons_self
      have hle := (holdsUntil_le limit p (nextAt ps until')).trans h.le_nextAt.2
      have hseg : outsideTime p.checkedAt (holdsUntil limit p (nextAt ps until')) maint =
          outsideTime p.checkedAt (holdsUntil limit p (nextAt ps until')) maint' :=
        outsideTime_congr fun t hat htb => hcover t (hp.trans hat) (lt_of_lt_of_le htb hle)
      rw [segments, segments, ih h.tail fun p' hp' => hsince p' (List.mem_cons_of_mem _ hp')]
      exact congrArg (fun x => (p, x) :: _) hseg

/-- **How long a status holds**: three times the median gap between the points, at least five
minutes. -/
def HoldLimit (points : List HealthPoint) (limit : ℤ) : Prop :=
  if points.length < 2 then limit = 5 * 60 * 10 ^ 9
  else
    ∃ (sorted : List ℤ) (median : ℤ),
      sorted.Perm (List.zipWith (fun p p' => p'.checkedAt - p.checkedAt) points points.tail) ∧
        sorted.Pairwise (· ≤ ·) ∧ sorted[sorted.length / 2]? = some median ∧
          limit = max (3 * median) (5 * 60 * 10 ^ 9)

/-- **What is measured for each point**: the instants that no span covers from the point to the next
one, or to the end of the window, as long as the status holds. -/
structure Measured (points : List HealthPoint) (maint : List Span) (until' limit : ℤ)
    (segs : List (HealthPoint × ℤ)) : Prop where
  eachPoint : segs.map Prod.fst = points
  time : ∀ (i : ℕ) s, segs[i]? = some s → s.2 = ((uncovered s.1.checkedAt
    (min ((points[i + 1]?.map HealthPoint.checkedAt).getD until') (s.1.checkedAt + limit))
      maint).card : ℤ)

theorem gapTimes_eq (points : List HealthPoint) : gapTimes points =
    List.zipWith (fun p p' => p'.checkedAt - p.checkedAt) points points.tail := by
  induction points with
  | nil => rfl
  | cons p ps ih =>
      cases ps with
      | nil => rfl
      | cons p' ps => exact congrArg ((p'.checkedAt - p.checkedAt) :: ·) ih

theorem holdLimit_extensionTime (points : List HealthPoint) :
    HoldLimit points (extensionTime points) := by
  rw [HoldLimit, extensionTime]
  split
  · rfl
  · next hlength =>
      have hgaps : (gapTimes points).length = points.length - 1 := by
        rw [gapTimes_eq, List.length_zipWith, List.length_tail]
        exact min_eq_right (Nat.sub_le _ _)
      have hlt : ((gapTimes points).insertionSort (· ≤ ·)).length / 2 <
          ((gapTimes points).insertionSort (· ≤ ·)).length := by
        rw [List.length_insertionSort]
        omega
      refine ⟨_, _, gapTimes_eq points ▸ List.perm_insertionSort _ _,
        List.pairwise_insertionSort _ _, List.getElem?_eq_getElem hlt, ?_⟩
      dsimp only
      rw [List.getElem?_eq_getElem hlt]
      rfl

theorem measured_segments (maint : List Span) (until' limit : ℤ) (points : List HealthPoint) :
    Measured points maint until' limit (segments limit maint until' points) := by
  induction points with
  | nil => exact ⟨rfl, fun i s hs => by cases hs⟩
  | cons p ps ih =>
      refine ⟨congrArg (p :: ·) ih.eachPoint, fun i s hs => ?_⟩
      cases i with
      | zero =>
          obtain rfl := Option.some.inj hs
          have huntil : ∀ next, holdsUntil limit p next = min next (p.checkedAt + limit) := by
            intro next
            unfold holdsUntil
            split <;> omega
          dsimp only
          rw [outsideTime_eq_card, huntil, List.head?_eq_getElem?]
          rfl
      | succ i => exact ih.time i s hs

/-- The answer and what it should be: the times of the points that are not offline and of all
points, and the outages, each once, with the mean of their measured times. -/
structure Answers (segs : List (HealthPoint × ℤ)) (window : ℤ) (answer : UptimeTimes) : Prop where
  up : answer.up = ((segs.filter fun s => ¬ IsOffline s).map Prod.snd).sum
  total : answer.total = (segs.map Prod.snd).sum
  bounds : 0 ≤ answer.up ∧ answer.up ≤ answer.total ∧ answer.total ≤ window
  outages : ∃ outs : List (ℕ × ℕ), outs.Nodup ∧ (∀ i j, (i, j) ∈ outs ↔ Outage segs i j) ∧
    answer.outageCount = outs.length ∧
    answer.mttr = if outs = [] then 0
      else (outs.map fun o => timeBetween segs o.1 o.2).sum / outs.length

theorem uptime_answers {points : List HealthPoint} {since until' : ℤ} {maint : List Span}
    (hwindow : since ≤ until') (h : Ascending points until')
    (hsince : ∀ p ∈ points, since ≤ p.checkedAt) :
    Answers (segments (extensionTime points) maint until' points) (until' - since)
      (uptime points maint until') := by
  generalize hsegs : segments (extensionTime points) maint until' points = segs
  have hnonneg : ∀ s ∈ segs, 0 ≤ s.2 := hsegs ▸ segments_nonneg points
  have hok := tally_ok hnonneg
  obtain ⟨outs, hnodup, hmem, hrec⟩ := hok.outages
  have hup := sum_le_of_sublist List.filter_sublist hnonneg
    (l := segs.filter fun s => ¬ IsOffline s)
  have hup0 : 0 ≤ ((segs.filter fun s => ¬ IsOffline s).map Prod.snd).sum :=
    sum_le_of_sublist (List.nil_sublist _) fun s hs => hnonneg s (List.mem_of_mem_filter hs)
  have hwithin : (segs.map Prod.snd).sum ≤ until' - since := by
    have hsum := sum_segments_le h (extensionTime points) maint
    rw [hsegs] at hsum
    cases points with
    | nil => exact hsum.trans (by simp [nextAt]; omega)
    | cons p ps => exact hsum.trans (Int.sub_le_sub_left (hsince p List.mem_cons_self) _)
  by_cases htotal : (segs.map Prod.snd).sum ≤ 0
  · -- nothing is measured
    have hnone : uptime points maint until' = noTimes := by
      rw [uptime]
      split
      · rfl
      · dsimp only
        rw [hsegs, hok.total, if_pos htotal]
    rw [hnone]
    refine ⟨?_, ?_, ⟨le_rfl, le_rfl, Int.sub_nonneg.2 hwindow⟩, [], List.nodup_nil, fun i j => ?_,
      rfl, rfl⟩
    · change 0 = ((segs.filter fun s => ¬ IsOffline s).map Prod.snd).sum
      omega
    · change 0 = (segs.map Prod.snd).sum
      omega
    · refine iff_of_false List.not_mem_nil fun hout => ?_
      have hpart := sum_le_of_sublist (((segs.take j).drop_sublist i).trans (segs.take_sublist j))
        hnonneg
      have hpos := hout.measured
      rw [timeBetween] at hpos
      omega
  · have hne : points ≠ [] := by
      rintro rfl
      exact htotal (hsegs ▸ le_rfl)
    have hlength : (tally segs).recoveries.length = outs.length := by rw [hrec, List.length_map]
    have huptime : uptime points maint until' =
        ⟨points.length, (tally segs).up, (tally segs).total, outs.length,
          if 0 < outs.length then (tally segs).recoveries.sum / outs.length else 0⟩ := by
      rw [uptime, if_neg hne]
      dsimp only
      rw [hsegs, if_neg (by rwa [hok.total]), hlength]
    rw [huptime]
    refine ⟨hok.up, hok.total, ⟨?_, ?_, ?_⟩, outs, hnodup, hmem, rfl, ?_⟩
    · exact hok.up ▸ hup0
    · dsimp only
      rw [hok.up, hok.total]
      exact hup
    · exact hok.total ▸ hwithin
    · dsimp only
      rw [hrec]
      by_cases hnil : outs = []
      · rw [if_pos hnil, hnil]
        rfl
      · rw [if_pos (List.length_pos_of_ne_nil hnil), if_neg hnil]

theorem uptime_congr {points : List HealthPoint} {since until' : ℤ} {maint maint' : List Span}
    (h : Ascending points until') (hsince : ∀ p ∈ points, since ≤ p.checkedAt)
    (hcover : SameCover since until' maint maint') :
    uptime points maint until' = uptime points maint' until' := by
  rw [uptime, uptime, segments_congr h hsince hcover]

/-! ### The 64-bit computation -/

/-- Durations that a 64-bit integer holds. -/
def InRange (d : ℤ) : Prop := -2 ^ 63 ≤ d ∧ d < 2 ^ 63

theorem sub_eq {a b : ℤ} (h : InRange (a - b)) : sub a b = Int64.ofInt (a - b) := by
  obtain ⟨hlow, hhigh⟩ := h
  have hmin : Int64.minValue.toInt = -2 ^ 63 := by decide
  have hmax : Int64.maxValue.toInt = 2 ^ 63 - 1 := by decide
  rw [sub, hmin, hmax, min_eq_left (by omega), max_eq_right hlow]

theorem toInt_ofInt {d : ℤ} (h : InRange d) : (Int64.ofInt d).toInt = d :=
  Int64.toInt_ofInt_of_le h.1 h.2

theorem subtractUnion_eq {a b : ℤ} (hab : b - a < 2 ^ 63) {cs : List Span} {cur : Span}
    (hcur : a ≤ cur.start ∧ cur.start ≤ cur.end ∧ cur.end ≤ b)
    (hcs : ∀ c ∈ cs, a ≤ c.start ∧ c.start ≤ c.end ∧ c.end ≤ b) (total : ℤ) :
    subtractUnion (Int64.ofInt total) cur cs = Int64.ofInt (subtractTime total cur cs) := by
  have hsub : sub cur.end cur.start = Int64.ofInt (cur.end - cur.start) :=
    sub_eq ⟨by omega, by omega⟩
  induction cs generalizing cur total with
  | nil => rw [subtractUnion, subtractTime, hsub, ← Int64.ofInt_sub]
  | cons c cs ih =>
      have hc := hcs c List.mem_cons_self
      have hcs' := fun c' hc' => hcs c' (List.mem_cons_of_mem c hc')
      rw [subtractUnion, subtractTime]
      split
      · rw [hsub, ← Int64.ofInt_sub]
        exact ih hc hcs' _ (sub_eq ⟨by omega, by omega⟩)
      · by_cases hlt : cur.end < c.end
        · rw [if_pos hlt]
          have hspan : a ≤ cur.start ∧ cur.start ≤ c.end ∧ c.end ≤ b := by omega
          have hlen : sub c.end cur.start = Int64.ofInt (c.end - cur.start) :=
            sub_eq ⟨by omega, by omega⟩
          exact ih hspan hcs' _ hlen
        · rw [if_neg hlt]
          exact ih hcur hcs' _ hsub

theorem outsideMaintenance_eq {a b : ℤ} (hab : b - a < 2 ^ 63) (maint : List Span) :
    outsideMaintenance a b maint = Int64.ofInt (outsideTime a b maint) := by
  rw [outsideMaintenance, outsideTime]
  split
  · rfl
  · next hlt =>
      have hsub : sub b a = Int64.ofInt (b - a) := sub_eq ⟨by omega, hab⟩
      generalize hsort : (maint.filterMap (clip a b)).insertionSort
        (fun c c' => c.start ≤ c'.start) = sorted
      have hin : ∀ c ∈ sorted, a ≤ c.start ∧ c.start ≤ c.end ∧ c.end ≤ b := by
        intro c hc
        rw [← hsort, List.mem_insertionSort] at hc
        obtain ⟨m, -, hclip⟩ := List.mem_filterMap.1 hc
        obtain ⟨hstart, hend, hpos⟩ := clip_eq_some.1 hclip
        omega
      cases sorted with
      | nil => exact hsub
      | cons c cs =>
          dsimp only
          rw [hsub]
          exact subtractUnion_eq hab (hin c List.mem_cons_self)
            (fun c' hc' => hin c' (List.mem_cons_of_mem _ hc')) _

/-- A tally in 64-bit durations. -/
def Tally.measure (m : Tally) : Measure :=
  ⟨Int64.ofInt m.up, Int64.ofInt m.total, Int64.ofInt m.outageDur, m.inOutage,
    m.recoveries.map Int64.ofInt⟩

theorem measure_add (m : Tally) (status : Bytes) {segment : ℤ} (h : InRange segment) :
    m.measure.add status (Int64.ofInt segment) = (m.add status segment).measure := by
  have hpos : decide (0 < Int64.ofInt segment) = decide (0 < segment) := by
    refine decide_eq_decide.2 ?_
    rw [Int64.lt_iff_toInt_lt, toInt_ofInt h]
    rfl
  unfold Measure.add Tally.add Tally.measure
  dsimp only
  rw [hpos]
  by_cases hoff : status = bytes "offline"
  · simp only [hoff, ne_eq, not_true_eq_false, if_false, if_true, Int64.ofInt_add]
    split <;> simp only [Int64.ofInt_add]
  · simp only [hoff, ne_eq, not_false_eq_true, if_false, if_true]
    split <;> simp

theorem measure_eq {limit : Int64} {since until' : ℤ} {maint : List Span}
    (hwindow : until' - since < 2 ^ 63) {points : List HealthPoint} (h : Ascending points until')
    (hsince : ∀ p ∈ points, since ≤ p.checkedAt) (m : Tally) :
    measure limit maint until' m.measure points =
      ((segments limit.toInt maint until' points).foldl
        (fun m s => m.add s.1.status s.2) m).measure := by
  induction points generalizing m with
  | nil => rfl
  | cons p ps ih =>
      have hp := hsince p List.mem_cons_self
      have hnext := h.le_nextAt
      have hle := holdsUntil_le limit.toInt p (nextAt ps until')
      have hseg := segment_le hnext.1 limit.toInt maint
      have hnonneg := outsideTime_nonneg p.checkedAt (holdsUntil limit.toInt p (nextAt ps until'))
        maint
      rw [segments, List.foldl_cons,
        ← ih h.tail (fun p' hp' => hsince p' (List.mem_cons_of_mem _ hp')), measure]
      congr 1
      change m.measure.add p.status
        (outsideMaintenance p.checkedAt (holdsUntil limit.toInt p (nextAt ps until')) maint) = _
      rw [outsideMaintenance_eq (by omega)]
      exact measure_add m p.status ⟨by omega, by omega⟩

theorem gaps_eq {since until' : ℤ} (hwindow : until' - since < 2 ^ 63) {points : List HealthPoint}
    (h : Ascending points until') (hsince : ∀ p ∈ points, since ≤ p.checkedAt) :
    gaps points = (gapTimes points).map Int64.ofInt ∧
      ∀ g ∈ gapTimes points, 0 ≤ g ∧ g ≤ until' - since := by
  induction points with
  | nil => exact ⟨rfl, fun g hg => absurd hg List.not_mem_nil⟩
  | cons p ps ih =>
      cases ps with
      | nil => exact ⟨rfl, fun g hg => absurd hg List.not_mem_nil⟩
      | cons p' ps =>
          obtain ⟨hmap, hgap⟩ := ih h.tail fun p' hp' => hsince p' (List.mem_cons_of_mem _ hp')
          have hp := hsince p List.mem_cons_self
          have hle := (List.pairwise_cons.1 h.sorted).1 p' List.mem_cons_self
          have hend := h.within p' (List.mem_cons_of_mem _ List.mem_cons_self)
          constructor
          · rw [gaps, gapTimes, List.map_cons, hmap, sub_eq ⟨by omega, by omega⟩]
          · intro g hg
            rcases List.mem_cons.1 hg with rfl | hg
            · omega
            · exact hgap g hg

theorem maxExtension_eq {since until' : ℤ} (hwindow : 3 * (until' - since) < 2 ^ 63)
    {points : List HealthPoint} (h : Ascending points until')
    (hsince : ∀ p ∈ points, since ≤ p.checkedAt) (hle : since ≤ until') :
    (maxExtension points).toInt = extensionTime points := by
  have hleast : minExtension.toInt = (5 * nsPerMinute : ℕ) := by decide
  rw [maxExtension, extensionTime]
  split
  · exact hleast
  · obtain ⟨hmap, hgap⟩ := gaps_eq (by omega) h hsince
    have hrange : ∀ g ∈ gapTimes points, InRange g := fun g hg => by
      have := hgap g hg
      exact ⟨by omega, by omega⟩
    have hsort : (gaps points).insertionSort (· ≤ ·) =
        ((gapTimes points).insertionSort (· ≤ ·)).map Int64.ofInt := by
      rw [hmap]
      refine (List.map_insertionSort _ _ _ _ fun g hg g' hg' => ?_).symm
      rw [Int64.le_iff_toInt_le, toInt_ofInt (hrange g hg), toInt_ofInt (hrange g' hg')]
    dsimp only
    rw [hsort, List.length_map, List.getElem?_map]
    generalize hmedian : ((gapTimes points).insertionSort (· ≤ ·))[
      ((gapTimes points).insertionSort (· ≤ ·)).length / 2]? = median
    have hbound : 0 ≤ median.getD 0 ∧ median.getD 0 ≤ until' - since := by
      cases median with
      | none => exact ⟨le_rfl, by simpa using hle⟩
      | some g => exact hgap g ((List.mem_insertionSort _).1 (List.mem_of_getElem? hmedian))
    have hthree : 3 * (median.map Int64.ofInt).getD 0 = Int64.ofInt (3 * median.getD 0) := by
      rw [Int64.ofInt_mul]
      cases median <;> rfl
    have hin : InRange (3 * median.getD 0) := ⟨by omega, by omega⟩
    have hmax : ∀ x y : Int64, max x y = if x ≤ y then y else x := fun _ _ => rfl
    rw [hthree, hmax, max_def]
    simp only [Int64.le_iff_toInt_le, toInt_ofInt hin, hleast]
    split
    · exact hleast
    · exact toInt_ofInt hin

/-- The answer of the code from these times. -/
def UptimeTimes.stats {F : Type} (floats : Floats F) (connectorID : Bytes) (since until' : ℤ)
    (answer : UptimeTimes) : UptimeStats F :=
  if answer.checkCount = 0 then noData floats connectorID since until'
  else
    { noData floats connectorID since until' with
      checkCount := answer.checkCount
      availabilityPct := floats.percent (Int64.ofInt answer.up) (Int64.ofInt answer.total)
      outageCount := answer.outageCount
      mttrSeconds :=
        if 0 < answer.outageCount then floats.seconds (Int64.ofInt answer.mttr) else floats.zero }

theorem foldl_ofInt (l : List ℤ) (d : ℤ) :
    (l.map Int64.ofInt).foldl (· + ·) (Int64.ofInt d) = Int64.ofInt (d + l.sum) := by
  induction l generalizing d with
  | nil => simp
  | cons e l ih =>
      rw [List.map_cons, List.foldl_cons, ← Int64.ofInt_add, ih, List.sum_cons, add_assoc]

theorem ofInt_div {sum : ℤ} {n : ℕ} (h : InRange sum) (hpos : 0 ≤ sum) (hn : (n : ℤ) ≤ sum) :
    Int64.ofInt sum / Int64.ofNat n = Int64.ofInt (sum / n) := by
  rw [← Int64.toInt_inj, Int64.toInt_div, toInt_ofInt h, ← Int64.ofInt_eq_ofNat,
    toInt_ofInt ⟨by omega, by have := h.2; omega⟩, Int64.toInt_ofInt,
    Int.tdiv_eq_ediv_of_nonneg hpos]

/-- What the loop has recovered from is part of what it has measured. -/
structure Tally.Recovered (m : Tally) : Prop where
  nonneg : 0 ≤ m.outageDur
  running : m.inOutage = true → 0 < m.outageDur
  pos : ∀ r ∈ m.recoveries, 0 < r
  sum_le : m.recoveries.sum + m.outageDur ≤ m.total

theorem Tally.Recovered.add {m : Tally} (h : m.Recovered) (status : Bytes) {segment : ℤ}
    (hseg : 0 ≤ segment) : (m.add status segment).Recovered := by
  obtain ⟨hnonneg, hrunning, hpos, hsum⟩ := h
  unfold Tally.add
  dsimp only
  split
  · refine ⟨?_, fun hin => ?_, hpos, ?_⟩
    · dsimp only
      split <;> omega
    · dsimp only at hin ⊢
      rw [if_pos hin]
      rcases Bool.or_eq_true_iff.1 hin with hin | hin
      · have := hrunning hin
        omega
      · have := of_decide_eq_true hin
        omega
    · dsimp only
      split <;> omega
  · split
    · next hin =>
        refine ⟨le_rfl, fun hin => absurd hin Bool.false_ne_true, fun r hr => ?_, ?_⟩
        · rcases List.mem_append.1 hr with hr | hr
          · exact hpos r hr
          · exact List.mem_singleton.1 hr ▸ hrunning hin
        · rw [List.sum_append, List.sum_singleton]
          dsimp only
          omega
    · exact ⟨hnonneg, hrunning, hpos, by dsimp only; omega⟩

theorem tally_recovered {segs : List (HealthPoint × ℤ)} (h : ∀ s ∈ segs, 0 ≤ s.2) :
    (tally segs).Recovered := by
  induction segs using List.reverseRecOn with
  | nil => exact ⟨le_rfl, fun hin => absurd hin Bool.false_ne_true,
      fun r hr => absurd hr List.not_mem_nil, le_rfl⟩
  | append_singleton segs s ih =>
      rw [tally_append]
      exact (ih fun s' hs' => h s' (List.mem_append_left _ hs')).add _
        (h s (List.mem_append_right _ List.mem_cons_self))

theorem length_le_sum {l : List ℤ} (h : ∀ r ∈ l, 0 < r) : (l.length : ℤ) ≤ l.sum := by
  induction l with
  | nil => exact le_rfl
  | cons r l ih =>
      have hr := h r List.mem_cons_self
      have ih := ih fun r' hr' => h r' (List.mem_cons_of_mem _ hr')
      rw [List.length_cons, List.sum_cons, Nat.cast_add, Nat.cast_one]
      omega

/-- **The 64-bit computation agrees**, in a window of less than a third of the range. -/
theorem computeUptime_eq {F : Type} (floats : Floats F) (connectorID : Bytes) {since until' : ℤ}
    {maint : List Span} {points : List HealthPoint} (hle : since ≤ until')
    (hwindow : 3 * (until' - since) < 2 ^ 63) (h : Ascending points until')
    (hsince : ∀ p ∈ points, since ≤ p.checkedAt) :
    computeUptime floats connectorID points maint since until' =
      (uptime points maint until').stats floats connectorID since until' := by
  rw [computeUptime, uptime]
  split
  · rfl
  · next hne =>
      have hmeasure : measure (maxExtension points) maint until' {} points =
          (tally (segments (extensionTime points) maint until' points)).measure := by
        rw [← maxExtension_eq hwindow h hsince hle]
        exact measure_eq (by omega) h hsince {}
      generalize hsegs : segments (extensionTime points) maint until' points = segs at hmeasure ⊢
      have hnonneg : ∀ s ∈ segs, 0 ≤ s.2 := hsegs ▸ segments_nonneg points
      have hok := tally_ok hnonneg
      have htotal : (segs.map Prod.snd).sum ≤ until' - since := by
        have hsum := sum_segments_le h (extensionTime points) maint
        rw [hsegs] at hsum
        cases points with
        | nil => exact absurd rfl hne
        | cons p ps => exact hsum.trans (Int.sub_le_sub_left (hsince p List.mem_cons_self) _)
      have htotal0 : 0 ≤ (segs.map Prod.snd).sum :=
        sum_le_of_sublist (List.nil_sublist _) hnonneg
      have hzero : (tally segs).measure.total ≤ 0 ↔ (tally segs).total ≤ 0 := by
        have hrange : InRange (tally segs).total := hok.total ▸ ⟨by omega, by omega⟩
        rw [Tally.measure, Int64.le_iff_toInt_le, toInt_ofInt hrange]
        rfl
      dsimp only
      rw [hmeasure]
      by_cases hno : (tally segs).total ≤ 0
      · rw [if_pos (hzero.2 hno), if_pos hno]
        rfl
      · rw [if_neg (mt hzero.1 hno), if_neg hno, UptimeTimes.stats]
        have hrec := tally_recovered hnonneg
        have hsum : (tally segs).recoveries.sum ≤ until' - since := by
          have := hrec.sum_le
          have := hrec.nonneg
          rw [hok.total] at *
          omega
        have hlength := length_le_sum hrec.pos
        have hpoints : points.length ≠ 0 := fun h0 => hne (List.length_eq_zero_iff.1 h0)
        have hmean : (tally segs).measure.recoveries.foldl (· + ·) 0 /
            Int64.ofNat (tally segs).recoveries.length =
              Int64.ofInt ((tally segs).recoveries.sum / (tally segs).recoveries.length) := by
          rw [← ofInt_div ⟨by omega, by omega⟩ (by omega) hlength]
          exact congrArg (· / _) ((foldl_ofInt _ 0).trans (by rw [zero_add]))
        have hcount : (tally segs).measure.recoveries.length = (tally segs).recoveries.length :=
          List.length_map _
        dsimp only
        rw [if_neg hpoints, hcount, hmean]
        congr 1
        by_cases hzero : 0 < (tally segs).recoveries.length
        · rw [if_pos hzero, if_pos hzero, if_pos hzero]
        · rw [if_neg hzero, if_neg hzero]

/-- **Uptime arithmetic is exact**: the sweep measures what the spans leave uncovered of `[a, b)`,
and the loop over points inside a window adds up what is measured for each point, and the outages.
-/
theorem uptime_exact :
    (∀ (a b : ℤ) (maint : List Span), a ≤ b →
      outsideTime a b maint = ((uncovered a b maint).card : ℤ) ∧
      0 ≤ outsideTime a b maint ∧ outsideTime a b maint ≤ b - a ∧
      (∀ c, a ≤ c → c ≤ b →
        outsideTime a b maint = outsideTime a c maint + outsideTime c b maint) ∧
      (∀ maint', maint.Perm maint' → outsideTime a b maint = outsideTime a b maint') ∧
      ∀ (l r : List Span) (s m e : ℤ), maint = l ++ ⟨s, e⟩ :: r → s ≤ m → m ≤ e →
        outsideTime a b maint = outsideTime a b (l ++ ⟨s, m⟩ :: ⟨m, e⟩ :: r)) ∧
    ∀ (since until' : ℤ) (points : List HealthPoint) (maint : List Span), since ≤ until' →
      points.Pairwise (fun p p' => p.checkedAt ≤ p'.checkedAt) →
      (∀ p ∈ points, since ≤ p.checkedAt ∧ p.checkedAt ≤ until') →
      (∃ limit segs, HoldLimit points limit ∧ Measured points maint until' limit segs ∧
        Answers segs (until' - since) (uptime points maint until')) ∧
        ∀ maint', SameCover since until' maint maint' →
          uptime points maint until' = uptime points maint' until' := by
  constructor
  · intro a b maint hab
    refine ⟨outsideTime_eq_card a b maint, outsideTime_nonneg a b maint, outsideTime_le hab maint,
      fun c hac hcb => outsideTime_add hac hcb maint,
      fun maint' hperm => outsideTime_congr (SameCover.perm hperm a b), ?_⟩
    rintro l r s m e rfl hsm hme
    have hfront : (l ++ ⟨s, e⟩ :: r).Perm (⟨s, e⟩ :: (l ++ r)) := List.perm_middle
    have hfront' : (l ++ ⟨s, m⟩ :: ⟨m, e⟩ :: r).Perm (⟨s, m⟩ :: ⟨m, e⟩ :: (l ++ r)) :=
      List.perm_middle.trans (List.perm_middle.cons _)
    rw [outsideTime_congr (SameCover.perm hfront a b),
      outsideTime_congr (SameCover.perm hfront' a b)]
    exact outsideTime_congr (SameCover.split hsm hme (l ++ r) a b)
  · intro since until' points maint hwindow hsorted hwithin
    have hasc : Ascending points until' := ⟨hsorted, fun p hp => (hwithin p hp).2⟩
    have hsince : ∀ p ∈ points, since ≤ p.checkedAt := fun p hp => (hwithin p hp).1
    exact ⟨⟨_, _, holdLimit_extensionTime points, measured_segments maint until' _ points,
      uptime_answers hwindow hasc hsince⟩, fun maint' => uptime_congr hasc hsince⟩

/-- Overlapping spans, and a check in a window that a later one recovers. -/
theorem uptime_exact_sample :
    outsideTime 0 10 [⟨4, 7⟩, ⟨2, 5⟩] = 5 ∧
      ∃ limit segs,
        HoldLimit [⟨bytes "online", 0⟩, ⟨bytes "offline", 60⟩, ⟨bytes "online", 100⟩] limit ∧
        Measured [⟨bytes "online", 0⟩, ⟨bytes "offline", 60⟩, ⟨bytes "online", 100⟩] [⟨70, 80⟩] 200
          limit segs ∧
        Answers segs (200 - 0) (uptime
          [⟨bytes "online", 0⟩, ⟨bytes "offline", 60⟩, ⟨bytes "online", 100⟩] [⟨70, 80⟩] 200) :=
  ⟨(uptime_exact.1 0 10 [⟨4, 7⟩, ⟨2, 5⟩] (by decide)).1.trans (by decide),
    (uptime_exact.2 0 200 _ [⟨70, 80⟩] (by decide) (by decide) (by decide)).1⟩

end WiseLabz.Uptime
