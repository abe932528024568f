/-
**Sorted rows.**

A query that sorts its rows and takes one of them returns a row that no other row precedes.  For a
total order of the rows that is all there is to say, and a row that precedes every other one
strictly is the one returned.  Rows with the same key stay in their order, so it does not matter
whether rows are selected before or after.

Main results:

* `Lib.head_insertionSort_spec` — the first of a sorted list comes before all others;
* `Lib.head_insertionSort_of_strict` — the row that precedes every other one is the first;
* `Lib.filter_insertionSort` — **sorting is stable**;
* `Lib.drop_findIdx` — the rows from the first one with a property on.
-/

import Mathlib.Data.List.Sort

set_option relaxedAutoImplicit false
set_option autoImplicit false

namespace Lib

universe u

variable {α : Type u} {r : α → α → Prop} [DecidableRel r] [Std.Total r] [IsTrans α r]

/-- **The first of a sorted list** is one of the list, and comes before all of it. -/
theorem head_insertionSort_spec {l : List α} {a : α} (h : (l.insertionSort r).head? = some a) :
    a ∈ l ∧ ∀ b ∈ l, r a b := by
  obtain ⟨t, ht⟩ := List.head?_eq_some_iff.1 h
  have hmem : ∀ b, b ∈ l ↔ b ∈ a :: t := by
    intro b
    rw [← ht, List.mem_insertionSort]
  have hsorted : (a :: t).Pairwise r := ht ▸ List.pairwise_insertionSort r l
  refine ⟨(hmem a).2 List.mem_cons_self, ?_⟩
  intro b hb
  rcases List.mem_cons.1 ((hmem b).1 hb) with rfl | hb
  · exact (total_of r b b).elim id id
  · exact List.rel_of_pairwise_cons hsorted hb

omit [Std.Total r] [IsTrans α r] in
theorem head_insertionSort_of_ne_nil {l : List α} (h : l ≠ []) :
    ∃ a, (l.insertionSort r).head? = some a := by
  cases hs : (l.insertionSort r).head? with
  | some a => exact ⟨a, rfl⟩
  | none =>
      have hnil := List.head?_eq_none_iff.1 hs
      have hlen := List.length_insertionSort r l
      rw [hnil] at hlen
      exact (h (List.length_eq_zero_iff.1 hlen.symm)).elim

/-- **The row that precedes every other one strictly** is the first. -/
theorem head_insertionSort_of_strict {l : List α} {a : α} (ha : a ∈ l)
    (hstrict : ∀ b ∈ l, b ≠ a → ¬ r b a) : (l.insertionSort r).head? = some a := by
  obtain ⟨b, hb⟩ := head_insertionSort_of_ne_nil (r := r) (List.ne_nil_of_mem ha)
  obtain ⟨hmem, hfirst⟩ := head_insertionSort_spec hb
  by_cases hba : b = a
  · rw [hb, hba]
  · exact (hstrict b hmem hba (hfirst a ha)).elim

/-! ### Selecting from a sorted list -/

omit [Std.Total r] [IsTrans α r] in
theorem orderedInsert_of_forall {a : α} {l : List α} (h : ∀ b ∈ l, r a b) :
    l.orderedInsert r a = a :: l := by
  cases l with
  | nil => rfl
  | cons b l => exact List.orderedInsert_cons_of_le r l (h b List.mem_cons_self)

omit [Std.Total r] in
/-- A row is inserted, if it is selected, at the same place. -/
theorem filter_orderedInsert (p : α → Bool) (a : α) {s : List α} (hs : s.Pairwise r) :
    (s.orderedInsert r a).filter p =
      if p a then (s.filter p).orderedInsert r a else s.filter p := by
  induction s with
  | nil => by_cases ha : p a <;> simp [ha]
  | cons b s ih =>
      obtain ⟨hb, hs⟩ := List.pairwise_cons.1 hs
      by_cases hab : r a b
      · -- the row comes before all that is selected of the rest
        have hfirst : ∀ c ∈ (b :: s).filter p, r a c := by
          intro c hc
          rcases List.mem_cons.1 (List.mem_filter.1 hc).1 with rfl | hc
          · exact hab
          · exact trans_of r hab (hb c hc)
        rw [orderedInsert_of_forall hfirst, List.orderedInsert_cons_of_le r s hab, List.filter_cons]
      · rw [List.orderedInsert_of_not_le r s hab, List.filter_cons, List.filter_cons, ih hs]
        by_cases hpb : p b
        · rw [if_pos hpb, if_pos hpb, List.orderedInsert_of_not_le r _ hab]
          split <;> rfl
        · rw [if_neg hpb, if_neg hpb]

/-- **Sorting is stable**: rows may be selected before or after. -/
theorem filter_insertionSort (p : α → Bool) (l : List α) :
    (l.filter p).insertionSort r = (l.insertionSort r).filter p := by
  induction l with
  | nil => rfl
  | cons a l ih =>
      rw [List.insertionSort_cons, filter_orderedInsert p a (List.pairwise_insertionSort r l), ← ih,
        List.filter_cons]
      split <;> rfl

omit [DecidableRel r] [Std.Total r] [IsTrans α r] in
/-- From the first of the sorted rows with a property on, all have it: the rest is what has it. -/
theorem drop_findIdx {p : α → Bool} {l : List α} (hl : l.Pairwise r)
    (hp : ∀ a b, r a b → p a = true → p b = true) : l.drop (l.findIdx p) = l.filter p := by
  induction l with
  | nil => rfl
  | cons a l ih =>
      obtain ⟨ha, hl⟩ := List.pairwise_cons.1 hl
      rw [List.findIdx_cons, List.filter_cons]
      cases hpa : p a with
      | true =>
          rw [if_pos rfl, List.filter_eq_self.2 fun b hb => hp a b (ha b hb) hpa]
          rfl
      | false =>
          rw [if_neg Bool.false_ne_true]
          exact ih hl

end Lib
