/-
**Inserting a list into a list.**

What is inserted at a position goes between what is before it and what is after it.  Parts of the list
that the position is not inside of stay together.

Main definitions:

* `Lib.insertAt` — the list with another one inserted at a position.

Main results:

* `Lib.insertAt_append_of_le`, `Lib.insertAt_append_of_ge` — inserting into one of two parts;
* `Lib.filterMap_insertAt` — **what is picked from the list and from what is inserted**.
-/

import Mathlib.Data.List.Basic

set_option relaxedAutoImplicit false
set_option autoImplicit false

namespace Lib

universe u v

variable {α : Type u} {β : Type v}

/-- The list with `ys` inserted at position `i`. -/
def insertAt (xs : List α) (i : ℕ) (ys : List α) : List α := xs.take i ++ (ys ++ xs.drop i)

theorem insertAt_length (xs ys : List α) : insertAt xs xs.length ys = xs ++ ys := by
  rw [insertAt, List.take_length, List.drop_length, List.append_nil]

/-- Inserting between two parts. -/
theorem insertAt_append (xs xs' ys : List α) :
    insertAt (xs ++ xs') xs.length ys = xs ++ (ys ++ xs') := by
  rw [insertAt, List.take_left, List.drop_left]

/-- Inserting into the first part. -/
theorem insertAt_append_of_le {xs : List α} {i : ℕ} (h : i ≤ xs.length) (xs' ys : List α) :
    insertAt (xs ++ xs') i ys = insertAt xs i ys ++ xs' := by
  rw [insertAt, insertAt, List.take_append_of_le_length h, List.drop_append_of_le_length h,
    List.append_assoc, List.append_assoc]

/-- Inserting into the second part. -/
theorem insertAt_append_of_ge {xs : List α} {i : ℕ} (h : xs.length ≤ i) (xs' ys : List α) :
    insertAt (xs ++ xs') i ys = xs ++ insertAt xs' (i - xs.length) ys := by
  rw [insertAt, insertAt, List.take_append, List.drop_append, List.take_of_length_le h,
    List.drop_of_length_le h, List.nil_append, List.append_assoc]

theorem mem_insertAt {xs ys : List α} {i : ℕ} {x : α} :
    x ∈ insertAt xs i ys ↔ x ∈ xs ∨ x ∈ ys := by
  rw [insertAt, List.mem_append, List.mem_append]
  conv_rhs => rw [← List.take_append_drop i xs, List.mem_append]
  tauto

theorem map_insertAt (f : α → β) (xs ys : List α) (i : ℕ) :
    (insertAt xs i ys).map f = insertAt (xs.map f) i (ys.map f) := by
  rw [insertAt, insertAt, List.map_append, List.map_append, List.map_take, List.map_drop]

/-- **What is picked from the list**, if nothing is picked from what is inserted. -/
theorem filterMap_insertAt {f : α → Option β} {ys : List α} (h : ys.filterMap f = [])
    (xs : List α) (i : ℕ) : (insertAt xs i ys).filterMap f = xs.filterMap f := by
  rw [insertAt, List.filterMap_append, List.filterMap_append, h, List.nil_append,
    ← List.filterMap_append, List.take_append_drop]

/-- **What is picked from both**, in some order. -/
theorem filterMap_insertAt_perm (f : α → Option β) (xs ys : List α) (i : ℕ) :
    ((insertAt xs i ys).filterMap f).Perm (xs.filterMap f ++ ys.filterMap f) := by
  rw [insertAt, List.filterMap_append, List.filterMap_append]
  conv_rhs => rw [← List.take_append_drop i xs, List.filterMap_append, List.append_assoc]
  exact List.perm_append_comm.append_left _

end Lib
