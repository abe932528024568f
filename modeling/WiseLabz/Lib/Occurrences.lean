/-
**Numbered occurrences.**

Each occurrence of a value in a list has a number: how often the value has occurred so far, the
occurrence itself counted.  No two occurrences have the same value and the same number.

Main definitions:

* `Lib.occurrencesFrom`, `Lib.occurrences` — the values of a list with their numbers, after some
  that were seen before.

Main results:

* `Lib.mem_occurrences` — **which numbers a value has**;
* `Lib.nodup_occurrences` — no number is given twice.
-/

import Mathlib.Data.List.Count
import Mathlib.Data.List.Nodup
import Mathlib.Logic.Function.Basic

set_option relaxedAutoImplicit false
set_option autoImplicit false

namespace Lib

universe u

variable {α : Type u} [DecidableEq α]

/-- The values of a list with the numbers of their occurrences, when `seen` occurrences of each
value came before. -/
def occurrencesFrom (seen : α → ℕ) : List α → List (α × ℕ)
  | [] => []
  | a :: l => (a, seen a + 1) :: occurrencesFrom (Function.update seen a (seen a + 1)) l

/-- The values of a list with the numbers of their occurrences. -/
def occurrences (l : List α) : List (α × ℕ) := occurrencesFrom (fun _ => 0) l

theorem mem_occurrencesFrom [BEq α] [LawfulBEq α] {seen : α → ℕ} {l : List α} {a : α} {n : ℕ} :
    (a, n) ∈ occurrencesFrom seen l ↔ seen a < n ∧ n ≤ seen a + l.count a := by
  induction l generalizing seen with
  | nil => simp [occurrencesFrom]
  | cons b l ih =>
      rw [occurrencesFrom, List.mem_cons, ih, List.count_cons]
      by_cases hab : b = a
      · subst hab
        simp only [Prod.mk.injEq, true_and, Function.update_self, beq_self_eq_true, if_true]
        omega
      · have hba : a ≠ b := fun h => hab h.symm
        simp [hba, hab]

/-- **A value has the numbers up to the count of it.** -/
theorem mem_occurrences [BEq α] [LawfulBEq α] {l : List α} {a : α} {n : ℕ} :
    (a, n) ∈ occurrences l ↔ 0 < n ∧ n ≤ l.count a := by
  rw [occurrences, mem_occurrencesFrom, Nat.zero_add]

theorem nodup_occurrencesFrom (seen : α → ℕ) (l : List α) : (occurrencesFrom seen l).Nodup := by
  induction l generalizing seen with
  | nil => exact List.nodup_nil
  | cons a l ih =>
      refine List.nodup_cons.2 ⟨fun hmem => ?_, ih _⟩
      have hlt := (mem_occurrencesFrom.1 hmem).1
      rw [Function.update_self] at hlt
      exact Nat.lt_irrefl _ hlt

theorem nodup_occurrences (l : List α) : (occurrences l).Nodup := nodup_occurrencesFrom _ l

end Lib
