/-
**Texts joined by a separator.**

Parts without the separator are read back from the joined text.  Even when only one of two lists is
known to have no separator in its parts, equal texts of equally many parts have equal parts, for
further separators could not be made up for.

Main definitions:

* `Lib.joinWith` — parts with a separator between them.

Main results:

* `Lib.append_cons_inj` — what stands before the first separator;
* `Lib.joinWith_inj` — **the parts of a joined text**.
-/

import Mathlib.Data.List.Count
import Mathlib.Algebra.Order.Ring.Nat

set_option relaxedAutoImplicit false
set_option autoImplicit false

namespace Lib

universe u

variable {α : Type u}

/-- Parts with a separator between them. -/
def joinWith (sep : α) : List (List α) → List α
  | [] => []
  | [s] => s
  | s :: t :: rest => s ++ sep :: joinWith sep (t :: rest)

/-- What stands before the first separator. -/
theorem append_cons_inj {a : α} {l l' s s' : List α} (hl : a ∉ l) (hl' : a ∉ l')
    (h : l ++ a :: s = l' ++ a :: s') : l = l' ∧ s = s' := by
  induction l generalizing l' with
  | nil =>
      cases l' with
      | nil => exact ⟨rfl, (List.cons.inj h).2⟩
      | cons b l' =>
          obtain ⟨rfl, -⟩ := List.cons.inj h
          exact absurd (List.mem_cons_self ..) hl'
  | cons b l ih =>
      cases l' with
      | nil =>
          obtain ⟨rfl, -⟩ := List.cons.inj h
          exact absurd (List.mem_cons_self ..) hl
      | cons b' l' =>
          obtain ⟨rfl, htail⟩ := List.cons.inj h
          obtain ⟨rfl, hs⟩ := ih (fun hmem => hl (List.mem_cons_of_mem _ hmem))
            (fun hmem => hl' (List.mem_cons_of_mem _ hmem)) htail
          exact ⟨rfl, hs⟩

variable [DecidableEq α] {sep : α}

/-- The separators of a joined text are those between the parts and those in them. -/
theorem count_joinWith (s : List α) (parts : List (List α)) :
    (joinWith sep (s :: parts)).count sep =
      parts.length + ((s :: parts).map (List.count sep)).sum := by
  induction parts generalizing s with
  | nil => simp [joinWith]
  | cons t parts ih =>
      rw [joinWith, List.count_append, List.count_cons_self, ih]
      simp only [List.map_cons, List.sum_cons, List.length_cons]
      omega

/-- Parts without separators in a text joined with as few of them as the text of `parts` has. -/
theorem not_mem_of_joinWith {parts parts' : List (List α)}
    (h : joinWith sep parts = joinWith sep parts') (hparts : ∀ s ∈ parts, sep ∉ s)
    (hlength : parts.length = parts'.length) :
    ∀ s ∈ parts', sep ∉ s := by
  cases parts' with
  | nil => exact fun _ hs => absurd hs List.not_mem_nil
  | cons s' parts' =>
      cases parts with
      | nil => cases hlength
      | cons s parts =>
          have hzero : ((s :: parts).map (List.count sep)).sum = 0 := by
            rw [List.sum_eq_zero_iff_forall_eq_nat]
            intro n hn
            obtain ⟨t, ht, rfl⟩ := List.mem_map.1 hn
            exact List.count_eq_zero.2 (hparts t ht)
          have hcount := congrArg (List.count sep) h
          rw [count_joinWith, count_joinWith, hzero] at hcount
          have hlength' : parts.length = parts'.length := by simpa using hlength
          have hsum : ((s' :: parts').map (List.count sep)).sum = 0 := by omega
          rw [List.sum_eq_zero_iff_forall_eq_nat] at hsum
          exact fun t ht => List.count_eq_zero.1 (hsum _ (List.mem_map_of_mem ht))

/-- **The parts of a joined text.** -/
theorem joinWith_inj {parts parts' : List (List α)} (h : joinWith sep parts = joinWith sep parts')
    (hparts : ∀ s ∈ parts, sep ∉ s) (hlength : parts.length = parts'.length) : parts = parts' := by
  have hparts' := not_mem_of_joinWith h hparts hlength
  induction parts generalizing parts' with
  | nil => exact (List.length_eq_zero_iff.1 hlength.symm).symm
  | cons s parts ih =>
      cases parts' with
      | nil => cases hlength
      | cons s' parts' =>
          have hlength' : parts.length = parts'.length := by simpa using hlength
          cases parts with
          | nil =>
              obtain rfl := List.length_eq_zero_iff.1 hlength'.symm
              exact congrArg (· :: []) h
          | cons t parts =>
              cases parts' with
              | nil => cases hlength'
              | cons t' parts' =>
                  obtain ⟨rfl, hrest⟩ := append_cons_inj (hparts s (List.mem_cons_self ..))
                    (hparts' s' (List.mem_cons_self ..)) h
                  rw [ih hrest (fun r hr => hparts r (List.mem_cons_of_mem _ hr)) hlength'
                    fun r hr => hparts' r (List.mem_cons_of_mem _ hr)]

end Lib
