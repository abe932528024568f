/-
**The first position with a property.**

Main definitions:

* `Lib.first` — the first position below a bound;
* `Lib.earlier` — the smaller of two positions that may be missing.

Main results:

* `Lib.first_or` — two searches at once;
* `Lib.first_skip` — a search that begins later.
-/

import Mathlib.Data.Nat.Init
import Mathlib.Tactic.Common

set_option relaxedAutoImplicit false
set_option autoImplicit false

namespace Lib

/-- The first position below a bound with a property. -/
def first (p : ℕ → Bool) (n : ℕ) : Option ℕ := (List.range n).find? p

/-- The smaller of two positions that may be missing. -/
def earlier : Option ℕ → Option ℕ → Option ℕ
  | none, j => j
  | some i, none => some i
  | some i, some j => some (if j < i then j else i)

variable {p q : ℕ → Bool} {n k : ℕ}

theorem first_eq_some : first p n = some k ↔ k < n ∧ p k = true ∧ ∀ j < k, p j = false := by
  rw [first, List.find?_range_eq_some, List.mem_range]
  constructor
  · rintro ⟨hp, hk, hj⟩
    exact ⟨hk, hp, fun j hjk => by simpa using hj j hjk⟩
  · rintro ⟨hk, hp, hj⟩
    exact ⟨hp, hk, fun j hjk => by simpa using hj j hjk⟩

theorem first_eq_none : first p n = none ↔ ∀ j < n, p j = false := by
  rw [first, List.find?_range_eq_none]
  exact forall₂_congr fun j _ => by simp

/-- **Two searches at once.** -/
theorem first_or : first (fun k => p k || q k) n = earlier (first p n) (first q n) := by
  cases hp : first p n with
  | none =>
      rw [first_eq_none] at hp
      cases hq : first q n with
      | none =>
          rw [first_eq_none] at hq
          exact first_eq_none.2 fun j hj => by rw [hp j hj, hq j hj]; rfl
      | some j =>
          obtain ⟨hj, hqj, hmin⟩ := first_eq_some.1 hq
          exact first_eq_some.2 ⟨hj, by rw [hqj, Bool.or_true],
            fun m hm => by rw [hp m (Nat.lt_trans hm hj), hmin m hm]; rfl⟩
  | some i =>
      obtain ⟨hi, hpi, hpmin⟩ := first_eq_some.1 hp
      cases hq : first q n with
      | none =>
          rw [first_eq_none] at hq
          exact first_eq_some.2 ⟨hi, by rw [hpi, Bool.true_or],
            fun m hm => by rw [hq m (Nat.lt_trans hm hi), hpmin m hm]; rfl⟩
      | some j =>
          obtain ⟨hj, hqj, hqmin⟩ := first_eq_some.1 hq
          rw [earlier]
          split
          · next hlt =>
              exact first_eq_some.2 ⟨hj, by rw [hqj, Bool.or_true],
                fun m hm => by rw [hpmin m (Nat.lt_trans hm hlt), hqmin m hm]; rfl⟩
          · next hle =>
              exact first_eq_some.2 ⟨hi, by rw [hpi, Bool.true_or],
                fun m hm => by
                  rw [hpmin m hm, hqmin m (Nat.lt_of_lt_of_le hm (Nat.not_lt.1 hle))]; rfl⟩

/-- **A search that begins later** finds the same where nothing comes before. -/
theorem first_skip (h : ∀ j < k, p j = false) :
    first p n = (first (fun j => p (k + j)) (n - k)).map (k + ·) := by
  cases hp : first (fun j => p (k + j)) (n - k) with
  | none =>
      rw [first_eq_none] at hp
      refine first_eq_none.2 fun j hj => ?_
      by_cases hjk : j < k
      · exact h j hjk
      · have := hp (j - k) (by omega)
        rwa [Nat.add_sub_cancel' (Nat.not_lt.1 hjk)] at this
  | some i =>
      obtain ⟨hi, hpi, hmin⟩ := first_eq_some.1 hp
      have hki : k + i < n := by omega
      refine first_eq_some.2 ⟨hki, hpi, fun (j : ℕ) (hj : j < k + i) => ?_⟩
      by_cases hjk : j < k
      · exact h j hjk
      · have := hmin (j - k) (by omega)
        rwa [Nat.add_sub_cancel' (Nat.not_lt.1 hjk)] at this

end Lib
