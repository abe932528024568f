/-
**The calendar and the texts of instants.**

Instants are counted in nanoseconds from the start of the year 0 of the proleptic Gregorian
calendar.  Years and months have different lengths, so the year of a day, and the month of a day of
the year, are looked up among the days on which they start.  An instant is written as a date and a
time of day in UTC with nine digits of a second; until the year 10000 all these texts have one
length, so they compare as the instants do, and they are read back.

Main definitions:

* `Lib.locate` — the last part that starts at or before a place;
* `Lib.yearOf`, `Lib.monthOf` — the year and the month of a day;
* `Lib.timestamp`, `Lib.rfc3339` — the text of an instant, and of its second;
* `Lib.parseTime` — the instant of an RFC 3339 text.

Main results:

* `Lib.ordered_timestamp`, `Lib.rfc3339_lt_iff` — **the texts compare as the instants**, or as their
  seconds, until the year 10000;
* `Lib.parseTime_timestamp` — **the instant is read back** from its text.
-/

import Mathlib.Data.Nat.Find
import Mathlib.Algebra.Order.Ring.Nat
import WiseLabz.Lib.FixedWidth

set_option relaxedAutoImplicit false
set_option autoImplicit false

namespace Lib

/-! ### Parts of different lengths -/

/-- The last of the parts up to `bound` that starts at `d` or before; part `y` starts at
`start y`. -/
def locate (start : ℕ → ℕ) (bound d : ℕ) : ℕ := Nat.findGreatest (fun y => start y ≤ d) bound

section Locate

variable {start : ℕ → ℕ} {bound d : ℕ}

theorem start_locate_le (h0 : start 0 = 0) : start (locate start bound d) ≤ d :=
  Nat.findGreatest_spec (m := 0) (P := fun y => start y ≤ d) (Nat.zero_le _) (by simp [h0])

theorem locate_le : locate start bound d ≤ bound := Nat.findGreatest_le bound

/-- What follows the part that was found starts later. -/
theorem lt_start_locate (h : d < start (bound + 1)) : d < start (locate start bound d + 1) := by
  have hle : locate start bound d ≤ bound := locate_le
  rcases Nat.lt_or_eq_of_le hle with hlt | heq
  · by_contra hle
    have := Nat.findGreatest_is_greatest (P := fun y => start y ≤ d) (Nat.lt_succ_self _) hlt
    exact this (not_lt.1 hle)
  · rwa [heq]

theorem locate_mono {d' bound' : ℕ} (hb : bound ≤ bound') (h : d ≤ d') :
    locate start bound d ≤ locate start bound' d' :=
  Nat.findGreatest_mono (fun _ hy => le_trans hy h) hb

end Locate

/-! ### Years and months -/

def isLeap (y : ℕ) : Bool := y % 4 = 0 && (y % 100 ≠ 0 || y % 400 = 0)

/-- The day, from the start of the year 0, on which a year starts. -/
def daysBeforeYear (y : ℕ) : ℕ := 365 * y + (y + 3) / 4 - (y + 99) / 100 + (y + 399) / 400

/-- The days of a year. -/
def daysOfYear (leap : Bool) : ℕ := if leap then 366 else 365

/-- The day of the year on which a month starts; months are counted from 0. -/
def daysBeforeMonth (leap : Bool) : ℕ → ℕ
  | 0 => 0
  | 1 => 31
  | n + 2 => [31, 59, 90, 120, 151, 181, 212, 243, 273, 304, 334, 365].getD (n + 1) 365 +
      if leap then 1 else 0

/-- A multiple of `k` has been passed, or not. -/
theorem ceilDiv_succ {k : ℕ} (hk : 0 < k) (y : ℕ) :
    (y + k) / k = (y + (k - 1)) / k + if y % k = 0 then 1 else 0 := by
  have h : (y + (k - 1) + 1) / k = _ := Nat.succ_div
  have hsucc : y + (k - 1) + 1 = y + k := by omega
  have hdvd : k ∣ y + k ↔ y % k = 0 := by
    rw [Nat.dvd_add_self_right, Nat.dvd_iff_mod_eq_zero]
  rw [hsucc] at h
  simpa only [hdvd] using h

theorem daysBeforeYear_succ (y : ℕ) :
    daysBeforeYear (y + 1) = daysBeforeYear y + daysOfYear (isLeap y) := by
  have h4 := ceilDiv_succ (k := 4) (by decide) y
  have h100 := ceilDiv_succ (k := 100) (by decide) y
  have h400 := ceilDiv_succ (k := 400) (by decide) y
  have hle : (y + 99) / 100 ≤ (y + 3) / 4 := by omega
  have hleap : (if isLeap y then 1 else 0) + (if y % 100 = 0 then 1 else 0) =
      (if y % 4 = 0 then 1 else 0) + if y % 400 = 0 then 1 else 0 := by
    have h₁ : y % 100 = 0 → y % 4 = 0 := by omega
    have h₂ : y % 400 = 0 → y % 100 = 0 := by omega
    by_cases hy4 : y % 4 = 0 <;> by_cases hy100 : y % 100 = 0 <;> by_cases hy400 : y % 400 = 0 <;>
      simp_all [isLeap]
  have hdays : daysOfYear (isLeap y) = 365 + if isLeap y then 1 else 0 := by
    cases isLeap y <;> rfl
  rw [hdays]
  unfold daysBeforeYear
  simp only [Nat.reduceSub, Nat.add_assoc, Nat.reduceAdd] at h4 h100 h400 ⊢
  omega

theorem daysBeforeYear_mono (y z : ℕ) (h : y ≤ z) : daysBeforeYear y ≤ daysBeforeYear z := by
  induction z, h using Nat.le_induction with
  | base => exact le_rfl
  | succ z _ ih =>
      rw [daysBeforeYear_succ]
      exact ih.trans (Nat.le_add_right _ _)

theorem le_daysBeforeYear (y : ℕ) : 365 * y ≤ daysBeforeYear y := by
  unfold daysBeforeYear
  omega

/-- The year of a day. -/
def yearOf (d : ℕ) : ℕ := locate daysBeforeYear (d / 365) d

/-- The month, from 0, of a day of a year. -/
def monthOf (leap : Bool) (d : ℕ) : ℕ := locate (daysBeforeMonth leap) 11 d

theorem daysBeforeYear_yearOf_le (d : ℕ) : daysBeforeYear (yearOf d) ≤ d :=
  start_locate_le rfl

/-- The day of a year. -/
theorem lt_daysBeforeYear_yearOf (d : ℕ) :
    d - daysBeforeYear (yearOf d) < daysOfYear (isLeap (yearOf d)) := by
  have hbound : d < daysBeforeYear (d / 365 + 1) := by
    refine lt_of_lt_of_le ?_ (le_daysBeforeYear _)
    omega
  have hlt : d < daysBeforeYear (yearOf d + 1) := lt_start_locate hbound
  have hle := daysBeforeYear_yearOf_le d
  rw [daysBeforeYear_succ] at hlt
  omega

theorem yearOf_mono (d d' : ℕ) (h : d ≤ d') : yearOf d ≤ yearOf d' :=
  locate_mono (Nat.div_le_div_right h) h

/-- The days before a year that has not ended. -/
theorem yearOf_lt_iff {d y : ℕ} : yearOf d < y ↔ d < daysBeforeYear y := by
  constructor
  · intro h
    have hlt := lt_daysBeforeYear_yearOf d
    have hmono := daysBeforeYear_mono (yearOf d + 1) y h
    rw [daysBeforeYear_succ] at hmono
    omega
  · intro h
    by_contra hle
    have hmono := daysBeforeYear_mono y (yearOf d) (not_lt.1 hle)
    have hspec := daysBeforeYear_yearOf_le d
    omega

/-- A month has at most 31 days. -/
theorem daysBeforeMonth_succ_le (leap : Bool) (m : ℕ) (hm : m < 12) :
    daysBeforeMonth leap (m + 1) ≤ daysBeforeMonth leap m + 31 := by
  cases leap <;> interval_cases m <;> decide

/-! ### The texts of instants -/

/-- Nanoseconds of a second, a minute, an hour and a day. -/
def nsPerSecond : ℕ := 10 ^ 9
def nsPerMinute : ℕ := 60 * nsPerSecond
def nsPerHour : ℕ := 60 * nsPerMinute
def nsPerDay : ℕ := 24 * nsPerHour

/-- The start of the year 10000. -/
def endOfYears : ℕ := daysBeforeYear 10000 * nsPerDay

/-- The digits of a year: at least four. -/
def yearText (y : ℕ) : Bytes :=
  if y < 10000 then digits 4 y else (Nat.toDigits 10 y).map fun c => c.toNat.toUInt8

/-- `01-02`: the month and the day of a day of the year. -/
def monthDayText (leap : Bool) (d : ℕ) : Bytes :=
  digits 2 (monthOf leap d + 1) ++
    (bytes "-" ++ digits 2 (d - daysBeforeMonth leap (monthOf leap d) + 1))

/-- `2006-01-02`. -/
def dateText (d : ℕ) : Bytes :=
  yearText (yearOf d) ++
    (bytes "-" ++ monthDayText (isLeap (yearOf d)) (d - daysBeforeYear (yearOf d)))

/-- `05.000000000`. -/
def secondText (x : ℕ) : Bytes :=
  digits 2 (x / nsPerSecond) ++ (bytes "." ++ digits 9 (x % nsPerSecond))

/-- `04:05.000000000`. -/
def minuteText (x : ℕ) : Bytes :=
  digits 2 (x / nsPerMinute) ++ (bytes ":" ++ secondText (x % nsPerMinute))

/-- `15:04:05.000000000`. -/
def clockText (x : ℕ) : Bytes :=
  digits 2 (x / nsPerHour) ++ (bytes ":" ++ minuteText (x % nsPerHour))

/-- **The text of an instant**: `2006-01-02T15:04:05.000000000Z`. -/
def timestamp (t : ℕ) : Bytes :=
  dateText (t / nsPerDay) ++ (bytes "T" ++ (clockText (t % nsPerDay) ++ bytes "Z"))

theorem ordered_monthDayText (leap : Bool) :
    Ordered (· < daysOfYear leap) 5 (monthDayText leap) := by
  have hmonth : Ordered (· < 12) 2 (fun m => digits 2 (m + 1)) :=
    (ordered_digits 2).comp (fun _ _ h => Nat.succ_lt_succ h) (fun t (ht : t < 12) =>
      show t + 1 < 100 by omega)
  have hday : Ordered (· < 31) 3 (fun x => bytes "-" ++ digits 2 (x + 1)) :=
    ((ordered_digits 2).comp (fun _ _ h => Nat.succ_lt_succ h) (fun t (ht : t < 31) =>
      show t + 1 < 100 by omega)).prepend (bytes "-")
  have hstart : ∀ d, daysBeforeMonth leap (monthOf leap d) ≤ d := fun d => start_locate_le rfl
  refine hmonth.append (q := monthOf leap) (R := fun _ => (· < 31))
    (r := fun d => d - daysBeforeMonth leap (monthOf leap d)) (fun _ => hday) ?_ ?_ ?_ ?_
  · intro d _
    exact Nat.lt_succ_of_le locate_le
  · intro d hd
    have hbound : d < daysBeforeMonth leap (11 + 1) := by
      cases leap <;> exact hd
    have hnext : d < daysBeforeMonth leap (monthOf leap d + 1) := lt_start_locate hbound
    have hlength := daysBeforeMonth_succ_le leap (monthOf leap d) (Nat.lt_succ_of_le locate_le)
    have := hstart d
    change d - daysBeforeMonth leap (monthOf leap d) < 31
    omega
  · exact fun d d' h => locate_mono le_rfl h
  · intro d d' heq hlt
    have := hstart d
    simp only [heq] at this ⊢
    omega

theorem ordered_yearText : Ordered (· < 10000) 4 yearText where
  length y hy := by
    rw [yearText, if_pos hy, digits_length]
  lt y z hy hz hyz := by
    rw [yearText, yearText, if_pos hy, if_pos hz]
    exact (ordered_digits 4).lt y z hy hz hyz

theorem ordered_dateText : Ordered (· < daysBeforeYear 10000) 10 dateText := by
  refine ordered_yearText.append (q := yearOf) (r := fun d => d - daysBeforeYear (yearOf d))
    (R := fun y => (· < daysOfYear (isLeap y))) (d := fun y x => bytes "-" ++
      monthDayText (isLeap y) x)
    (fun y => (ordered_monthDayText (isLeap y)).prepend (bytes "-")) ?_ ?_ yearOf_mono ?_
  · exact fun d hd => yearOf_lt_iff.2 hd
  · exact fun d _ => lt_daysBeforeYear_yearOf d
  · intro d d' heq hlt
    have := daysBeforeYear_yearOf_le d
    simp only [heq] at this ⊢
    omega

theorem ordered_clockText : Ordered (· < nsPerDay) 18 clockText := by
  have hsecond : Ordered (· < nsPerMinute) 12 secondText :=
    ((ordered_digits 2).append_divMod (k := nsPerSecond) (by decide)
      ((ordered_digits 9).prepend (bytes "."))).mono fun t ht => lt_trans ht (by decide)
  have hminute : Ordered (· < nsPerHour) 15 minuteText :=
    ((ordered_digits 2).append_divMod (k := nsPerMinute) (by decide)
      (hsecond.prepend (bytes ":"))).mono fun t ht => lt_trans ht (by decide)
  exact ((ordered_digits 2).append_divMod (k := nsPerHour) (by decide)
    (hminute.prepend (bytes ":"))).mono fun t ht => lt_trans ht (by decide)

/-- **The texts of instants compare as the instants do**, until the year 10000. -/
theorem ordered_timestamp : Ordered (· < endOfYears) 30 timestamp :=
  ordered_dateText.append_divMod (by decide)
    ((ordered_clockText.concat (bytes "Z")).prepend (bytes "T"))

/-! ### Instants in whole seconds -/

/-- `15:04:05`, of a second of a day. -/
def timeOfDayText (x : ℕ) : Bytes :=
  digits 2 (x / 3600) ++ (bytes ":" ++ (digits 2 (x % 3600 / 60) ++
    (bytes ":" ++ digits 2 (x % 3600 % 60))))

/-- `2006-01-02T15:04:05Z`, of a second. -/
def secondsText (x : ℕ) : Bytes :=
  dateText (x / 86400) ++ (bytes "T" ++ (timeOfDayText (x % 86400) ++ bytes "Z"))

/-- **The text of an instant in whole seconds**: its fraction of a second is cut off. -/
def rfc3339 (t : ℕ) : Bytes := secondsText (t / nsPerSecond)

theorem ordered_secondsText : Ordered (· < daysBeforeYear 10000 * 86400) 20 secondsText := by
  have hminute : Ordered (· < 3600) 5
      (fun x => digits 2 (x / 60) ++ (bytes ":" ++ digits 2 (x % 60))) :=
    ((ordered_digits 2).append_divMod (k := 60) (by decide)
      (((ordered_digits 2).mono fun t (ht : t < 60) => show t < 100 by omega).prepend
        (bytes ":"))).mono fun t (ht : t < 3600) => show t < 100 * 60 by omega
  have hday : Ordered (· < 86400) 8 timeOfDayText :=
    ((ordered_digits 2).append_divMod (k := 3600) (by decide)
      (hminute.prepend (bytes ":"))).mono fun t (ht : t < 86400) => show t < 100 * 3600 by omega
  exact ordered_dateText.append_divMod (by decide)
    ((hday.concat (bytes "Z")).prepend (bytes "T"))

theorem seconds_lt {t : ℕ} (h : t < endOfYears) :
    t / nsPerSecond < daysBeforeYear 10000 * 86400 := by
  refine Nat.div_lt_of_lt_mul (lt_of_lt_of_eq h ?_)
  rw [endOfYears, show nsPerDay = 86400 * nsPerSecond from rfl, ← Nat.mul_assoc, Nat.mul_comm]

/-- **The texts compare as the seconds do**, until the year 10000. -/
theorem rfc3339_lt_iff {t u : ℕ} (ht : t < endOfYears) (hu : u < endOfYears) :
    rfc3339 t < rfc3339 u ↔ t / nsPerSecond < u / nsPerSecond :=
  ordered_secondsText.lt_iff (seconds_lt ht) (seconds_lt hu)

theorem rfc3339_mono {t u : ℕ} (hu : u < endOfYears) (h : t ≤ u) : rfc3339 t ≤ rfc3339 u := by
  have ht : t < endOfYears := lt_of_le_of_lt h hu
  refine List.not_lt.1 fun hlt => ?_
  exact absurd ((rfc3339_lt_iff hu ht).1 hlt) (Nat.not_lt.2 (Nat.div_le_div_right h))

theorem rfc3339_ne_nil (t : ℕ) : rfc3339 t ≠ [] := by
  simp [rfc3339, secondsText, bytes]

/-- The text of an instant that may lie before the year 0: the calendar repeats after 400 years, and
the year has a sign. -/
def instantText (t : ℤ) : Bytes :=
  if 0 ≤ t then rfc3339 t.toNat
  else
    let cycle := daysBeforeYear 400 * nsPerDay
    let cycles := (-t).toNat / cycle + 1
    let x := (t + (cycles * cycle : ℕ)).toNat / nsPerSecond
    let d := x / 86400
    bytes "-" ++ (yearText (400 * cycles - yearOf d) ++ (bytes "-" ++
      (monthDayText (isLeap (yearOf d)) (d - daysBeforeYear (yearOf d)) ++
        (bytes "T" ++ (timeOfDayText (x % 86400) ++ bytes "Z")))))

/-- An instant that is not after the start of a second has a text that is not after its text. -/
theorem instantText_le {t : ℤ} {x : ℕ} (hx : x < daysBeforeYear 10000 * 86400)
    (h : t ≤ (x * nsPerSecond : ℕ)) : instantText t ≤ secondsText x := by
  rw [instantText]
  split
  · have hle : t.toNat / nsPerSecond ≤ x := by
      rw [← Nat.mul_div_cancel x (show 0 < nsPerSecond by decide)]
      exact Nat.div_le_div_right (by omega)
    refine List.not_lt.1 fun hlt => ?_
    have := (ordered_secondsText.lt_iff hx (lt_of_le_of_lt hle hx)).1 hlt
    omega
  · -- a sign is before every digit
    have hday : x / 86400 < daysBeforeYear 10000 := Nat.div_lt_of_lt_mul (Nat.mul_comm _ _ ▸ hx)
    rw [secondsText, dateText, yearText, if_pos (yearOf_lt_iff.2 hday)]
    cases hdigits : digits 4 (yearOf (x / 86400)) with
    | nil => simpa [hdigits] using digits_length 4 (yearOf (x / 86400))
    | cons b s =>
        have hb : b ∈ digits 4 (yearOf (x / 86400)) := hdigits ▸ List.mem_cons_self
        have hdigit : (45 : UInt8) < b := lt_of_mem_digits hb
        exact List.le_of_lt (List.cons_lt_cons_iff.2 (Or.inl hdigit))

/-! ### Reading an instant -/

/-- The fraction of a second, in nanoseconds: a point and one digit or more, of which the first nine
count. -/
def readFraction (s : Bytes) : ℕ × Bytes :=
  match stripPrefix (bytes ".") s with
  | none => (0, s)
  | some s' =>
      let ds := s'.takeWhile fun b => (digitValue b).isSome
      if ds = [] then (0, s)
      else
        let width := min 9 ds.length
        (((readDigits width 0 ds).elim 0 (·.1)) * 10 ^ (9 - width), s'.drop ds.length)

/-- The offset of the zone from UTC, in seconds: `Z`, or hours and minutes behind a sign. -/
def readZone (s : Bytes) : Option ℤ :=
  if s = bytes "Z" then some 0
  else do
    let (sign, s) ← match s with
      | [] => none
      | b :: s => if b = 43 then some (1, s) else if b = 45 then some (-1, s) else none
    let (hours, s) ← readDigits 2 0 s
    let s ← stripPrefix (bytes ":") s
    let (minutes, s) ← readDigits 2 0 s
    if s = [] ∧ hours < 24 ∧ minutes < 60 then some (sign * ((hours * 60 + minutes) * 60 : ℕ))
    else none

/-- The days of a month, counted from 0. -/
def daysOfMonth (leap : Bool) (m : ℕ) : ℕ := daysBeforeMonth leap (m + 1) - daysBeforeMonth leap m

/-- **The instant of an RFC 3339 text**; instants before the year 0 are left out. -/
def parseTime (s : Bytes) : Option ℕ := do
  let (year, s) ← readDigits 4 0 s
  let s ← stripPrefix (bytes "-") s
  let (month, s) ← readDigits 2 0 s
  let s ← stripPrefix (bytes "-") s
  let (day, s) ← readDigits 2 0 s
  let s ← stripPrefix (bytes "T") s
  let (hour, s) ← readDigits 2 0 s
  let s ← stripPrefix (bytes ":") s
  let (minute, s) ← readDigits 2 0 s
  let s ← stripPrefix (bytes ":") s
  let (second, s) ← readDigits 2 0 s
  let (ns, s) := readFraction s
  let offset ← readZone s
  if 1 ≤ month ∧ month ≤ 12 ∧ 1 ≤ day ∧ day ≤ daysOfMonth (isLeap year) (month - 1) ∧
      hour < 24 ∧ minute < 60 ∧ second < 60 then
    let days := daysBeforeYear year + daysBeforeMonth (isLeap year) (month - 1) + (day - 1)
    let local' := days * nsPerDay + hour * nsPerHour + minute * nsPerMinute +
      second * nsPerSecond + ns
    (local' - offset * nsPerSecond : ℤ).toNat?
  else none

theorem readFraction_digits {n : ℕ} (h : n < nsPerSecond) (s : Bytes) (hs : s.head? = some 90) :
    readFraction (bytes "." ++ (digits 9 n ++ s)) = (n, s) := by
  have hdigits : (digits 9 n ++ s).takeWhile (fun b => (digitValue b).isSome) = digits 9 n := by
    rw [List.takeWhile_append_of_pos fun b hb => digitValue_of_mem_digits hb]
    cases s with
    | nil => simp
    | cons b s =>
        obtain rfl := Option.some.inj hs
        rw [List.takeWhile_cons_of_neg (by decide), List.append_nil]
  have hne : digits 9 n ≠ [] := fun heq => by simpa using congrArg List.length heq
  have hread := readDigits_digits (show n < 10 ^ 9 from h) []
  rw [List.append_nil] at hread
  simp [readFraction, hdigits, hne, hread]

/-- A second and a fraction below a minute. -/
theorem div_lt_of_lt_mul' {x k n : ℕ} (h : x < n * k) : x / k < n :=
  Nat.div_lt_of_lt_mul (by rwa [Nat.mul_comm])

/-- A step of the reader that succeeds leaves the rest of the reader. -/
theorem read_bind {α β : Type} {x : Option α} {a : α} {f : α → Option β} {r : Option β}
    (h : x = some a) (hf : f a = r) : x >>= f = r := by
  rw [h]
  exact hf

/-- A day, a time of day and what is read as a fraction of a second. -/
theorem parseTime_eq {d hour minute second ns : ℕ} (hday : d < daysBeforeYear 10000)
    (hhour : hour < 24) (hminute : minute < 60) (hsecond : second < 60) {s : Bytes}
    (hs : readFraction s = (ns, bytes "Z")) :
    parseTime (dateText d ++ (bytes "T" ++ (digits 2 hour ++ (bytes ":" ++ (digits 2 minute ++
      (bytes ":" ++ (digits 2 second ++ s))))))) =
        some (d * nsPerDay + hour * nsPerHour + minute * nsPerMinute + second * nsPerSecond +
          ns) := by
  have hyear : yearOf d < 10000 := yearOf_lt_iff.2 hday
  have hyearDay := lt_daysBeforeYear_yearOf d
  have hyearStart := daysBeforeYear_yearOf_le d
  rw [dateText]
  generalize yearOf d = y at hyear hyearDay hyearStart
  generalize hyd : d - daysBeforeYear y = yd at hyearDay
  have hmonth : monthOf (isLeap y) yd ≤ 11 := locate_le
  have hmonthStart : daysBeforeMonth (isLeap y) (monthOf (isLeap y) yd) ≤ yd := start_locate_le rfl
  have hmonthEnd : yd < daysBeforeMonth (isLeap y) (monthOf (isLeap y) yd + 1) := by
    refine lt_start_locate ?_
    cases hleap : isLeap y <;> rw [hleap] at hyearDay <;> exact hyearDay
  have hmonthLength := daysBeforeMonth_succ_le (isLeap y) (monthOf (isLeap y) yd) (by omega)
  rw [monthDayText]
  generalize monthOf (isLeap y) yd = m at hmonth hmonthStart hmonthEnd hmonthLength
  have hzone : readZone (bytes "Z") = some 0 := by decide
  rw [yearText, if_pos hyear, parseTime]
  simp only [List.append_assoc]
  refine read_bind (readDigits_digits (show y < 10 ^ 4 from hyear) _) ?_
  refine read_bind (stripPrefix_append _ _) ?_
  refine read_bind (readDigits_digits (show m + 1 < 10 ^ 2 by omega) _) ?_
  refine read_bind (stripPrefix_append _ _) ?_
  refine read_bind (readDigits_digits
    (show yd - daysBeforeMonth (isLeap y) m + 1 < 10 ^ 2 by omega) _) ?_
  refine read_bind (stripPrefix_append _ _) ?_
  refine read_bind (readDigits_digits (show hour < 10 ^ 2 by omega) _) ?_
  refine read_bind (stripPrefix_append _ _) ?_
  refine read_bind (readDigits_digits (show minute < 10 ^ 2 by omega) _) ?_
  refine read_bind (stripPrefix_append _ _) ?_
  refine read_bind (readDigits_digits (show second < 10 ^ 2 by omega) _) ?_
  simp only [hs, hzone, Option.bind_eq_bind, Option.bind_some, Nat.add_sub_cancel, daysOfMonth]
  rw [if_pos (by omega)]
  have hdays : daysBeforeYear y + daysBeforeMonth (isLeap y) m +
      (yd - daysBeforeMonth (isLeap y) m) = d := by omega
  rw [hdays, Int.zero_mul, Int.sub_zero, Int.mem_toNat?]

/-- **The instant is read back** from its text. -/
theorem parseTime_timestamp {t : ℕ} (h : t < endOfYears) : parseTime (timestamp t) = some t := by
  have hday : t / nsPerDay < daysBeforeYear 10000 := div_lt_of_lt_mul' h
  have hhour : t % nsPerDay / nsPerHour < 24 :=
    div_lt_of_lt_mul' (Nat.mod_lt t (show 0 < nsPerDay by decide))
  have hminute : t % nsPerDay % nsPerHour / nsPerMinute < 60 :=
    div_lt_of_lt_mul' (Nat.mod_lt _ (show 0 < nsPerHour by decide))
  have hsecond : t % nsPerDay % nsPerHour % nsPerMinute / nsPerSecond < 60 :=
    div_lt_of_lt_mul' (Nat.mod_lt _ (show 0 < nsPerMinute by decide))
  have hns : t % nsPerDay % nsPerHour % nsPerMinute % nsPerSecond < nsPerSecond :=
    Nat.mod_lt _ (by decide)
  have htext : timestamp t = dateText (t / nsPerDay) ++ (bytes "T" ++
      (digits 2 (t % nsPerDay / nsPerHour) ++ (bytes ":" ++
      (digits 2 (t % nsPerDay % nsPerHour / nsPerMinute) ++ (bytes ":" ++
      (digits 2 (t % nsPerDay % nsPerHour % nsPerMinute / nsPerSecond) ++ (bytes "." ++
      (digits 9 (t % nsPerDay % nsPerHour % nsPerMinute % nsPerSecond) ++ bytes "Z")))))))) := by
    simp only [timestamp, clockText, minuteText, secondText, List.append_assoc]
  rw [htext, parseTime_eq hday hhour hminute hsecond
    (readFraction_digits hns (bytes "Z") (by decide))]
  rw [Nat.add_assoc, Nat.div_add_mod', Nat.add_assoc, Nat.div_add_mod', Nat.add_assoc,
    Nat.div_add_mod', Nat.div_add_mod']

/-- **A second is read back** from its text. -/
theorem parseTime_secondsText {x : ℕ} (h : x < daysBeforeYear 10000 * 86400) :
    parseTime (secondsText x) = some (x * nsPerSecond) := by
  have hfraction : readFraction (bytes "Z") = (0, bytes "Z") := by decide
  have htext : secondsText x = dateText (x / 86400) ++ (bytes "T" ++
      (digits 2 (x % 86400 / 3600) ++ (bytes ":" ++ (digits 2 (x % 86400 % 3600 / 60) ++
      (bytes ":" ++ (digits 2 (x % 86400 % 3600 % 60) ++ bytes "Z")))))) := by
    simp only [secondsText, timeOfDayText, List.append_assoc]
  rw [htext, parseTime_eq (div_lt_of_lt_mul' h) (by omega) (by omega) (by omega) hfraction,
    nsPerDay, nsPerHour, nsPerMinute]
  refine congrArg some ?_
  generalize nsPerSecond = k
  have hx : x = x / 86400 * 86400 + x % 86400 / 3600 * 3600 + x % 86400 % 3600 / 60 * 60 +
      x % 86400 % 3600 % 60 := by omega
  rw [show 24 * (60 * (60 * k)) = 86400 * k by omega, show 60 * (60 * k) = 3600 * k by omega,
    ← Nat.mul_assoc, ← Nat.mul_assoc, ← Nat.mul_assoc, ← Nat.add_mul, ← Nat.add_mul,
    ← Nat.add_mul, Nat.add_zero, ← hx]

end Lib
