/-
**Longest common subsequences.**

The length of a longest common subsequence of two lists satisfies a recursion on their heads; the
table of the lengths for all their tails is filled by it from the end, a row at a time, and a walk
from the start that follows the larger of two neighbours meets a longest common subsequence.

Main definitions:

* `Lib.IsLongestCommon` — **the length of a longest common subsequence**;
* `Lib.lcsLength` — the recursion;
* `Lib.lcsRow`, `Lib.lcsTable` — the table.

Main results:

* `Lib.isLongestCommon_lcsLength` — **the recursion gives the length**;
* `Lib.lcsTable_eq`, `Lib.cell_lcsTable` — what is in the table.
-/

import Mathlib.Data.List.GetD
import Mathlib.Data.List.Infix
import Mathlib.Order.Nat

set_option relaxedAutoImplicit false
set_option autoImplicit false

namespace Lib

universe u

variable {α : Type u}

/-- The length of a longest common subsequence of two lists. -/
structure IsLongestCommon (a b : List α) (k : ℕ) : Prop where
  attained : ∃ l : List α, l.Sublist a ∧ l.Sublist b ∧ l.length = k
  le : ∀ l : List α, l.Sublist a → l.Sublist b → l.length ≤ k

theorem getD_map_tails {β : Type*} (f : List α → β) (l : List α) {i : ℕ} (hi : i ≤ l.length)
    (d : β) : (l.tails.map f).getD i d = f (l.drop i) := by
  rw [List.getD_eq_getElem _ _ (by simpa using Nat.lt_succ_of_le hi), List.getElem_map,
    List.getElem_tails]

variable [DecidableEq α]

/-- The length of a longest common subsequence, by the heads of the lists. -/
def lcsLength : List α → List α → ℕ
  | [], _ => 0
  | _ :: _, [] => 0
  | x :: a, y :: b =>
      if x = y then lcsLength a b + 1 else max (lcsLength a (y :: b)) (lcsLength (x :: a) b)
termination_by a b => a.length + b.length

@[simp] theorem lcsLength_nil_left (b : List α) : lcsLength [] b = 0 := by rw [lcsLength]

@[simp] theorem lcsLength_nil_right (a : List α) : lcsLength a [] = 0 := by
  cases a <;> rw [lcsLength]

theorem lcsLength_cons (x y : α) (a b : List α) : lcsLength (x :: a) (y :: b) =
    if x = y then lcsLength a b + 1 else max (lcsLength a (y :: b)) (lcsLength (x :: a) b) := by
  rw [lcsLength]

theorem exists_common (a b : List α) :
    ∃ l : List α, l.Sublist a ∧ l.Sublist b ∧ l.length = lcsLength a b := by
  fun_induction lcsLength a b with
  | case1 b => exact ⟨[], List.nil_sublist _, List.nil_sublist _, rfl⟩
  | case2 x a => exact ⟨[], List.nil_sublist _, List.nil_sublist _, rfl⟩
  | case3 a x b ih =>
      obtain ⟨l, ha, hb, hlen⟩ := ih
      exact ⟨x :: l, ha.cons_cons x, hb.cons_cons x, by rw [List.length_cons, hlen]⟩
  | case4 x a y b hne ihl ihr =>
      rcases Nat.le_total (lcsLength a (y :: b)) (lcsLength (x :: a) b) with h | h
      · obtain ⟨l, ha, hb, hlen⟩ := ihr
        exact ⟨l, ha, hb.cons y, by rw [hlen, Nat.max_eq_right h]⟩
      · obtain ⟨l, ha, hb, hlen⟩ := ihl
        exact ⟨l, ha.cons x, hb, by rw [hlen, Nat.max_eq_left h]⟩

/-- No common subsequence is longer. -/
theorem length_le_lcsLength {a b l : List α} (ha : l.Sublist a) (hb : l.Sublist b) :
    l.length ≤ lcsLength a b := by
  fun_induction lcsLength a b generalizing l with
  | case1 b => rw [List.sublist_nil.1 ha, List.length_nil]
  | case2 x a => rw [List.sublist_nil.1 hb, List.length_nil]
  | case3 a x b ih =>
      have hlen := ih ha.tail hb.tail
      rw [List.length_tail] at hlen
      omega
  | case4 x a y b hne ihl ihr =>
      rcases List.sublist_cons_iff.1 ha with ha | ⟨r, rfl, hr⟩
      · exact (ihl ha hb).trans (Nat.le_max_left _ _)
      · -- the subsequence begins with the one head, so that it does not use the other
        rcases List.sublist_cons_iff.1 hb with hb | ⟨s, hs, -⟩
        · exact (ihr (hr.cons_cons x) hb).trans (Nat.le_max_right _ _)
        · exact absurd (List.cons.inj hs).1 hne

/-- **The recursion gives the length** of a longest common subsequence. -/
theorem isLongestCommon_lcsLength (a b : List α) : IsLongestCommon a b (lcsLength a b) :=
  ⟨exists_common a b, fun _ => length_le_lcsLength⟩

/-! ### The table -/

/-- The row of a head from the row below, from the last column on. -/
def lcsRow (x : α) : List α → List ℕ → List ℕ
  | [], _ => [0]
  | y :: b, below =>
      let row := lcsRow x b below.tail
      (if x = y then below.tail.headD 0 + 1 else max (below.headD 0) (row.headD 0)) :: row

/-- The table, from the last row on. -/
def lcsTable (b : List α) : List α → List (List ℕ)
  | [] => [List.replicate (b.length + 1) 0]
  | x :: a => lcsRow x b ((lcsTable b a).headD []) :: lcsTable b a

/-- A cell of a table. -/
def cell (table : List (List ℕ)) (i j : ℕ) : ℕ := (table.getD i []).getD j 0

theorem lcsRow_eq (x : α) (a b : List α) :
    lcsRow x b (b.tails.map (lcsLength a)) = b.tails.map (lcsLength (x :: a)) := by
  induction b with
  | nil => simp [lcsRow]
  | cons y b ih =>
      have hhead : (b.tails.map (lcsLength a)).headD 0 = lcsLength a b := by
        cases b <;> simp
      have hhead' : (b.tails.map (lcsLength (x :: a))).headD 0 = lcsLength (x :: a) b := by
        cases b <;> simp
      rw [List.tails_cons, List.map_cons, List.map_cons, lcsRow, List.tail_cons, ih, hhead,
        hhead', List.headD_cons, lcsLength_cons]

/-- **The table has the length for each two tails.** -/
theorem lcsTable_eq (a b : List α) :
    lcsTable b a = a.tails.map fun t => b.tails.map (lcsLength t) := by
  induction a with
  | nil =>
      have hzero : b.tails.map (lcsLength ([] : List α)) = List.replicate (b.length + 1) 0 := by
        rw [List.eq_replicate_iff]
        exact ⟨by simp, by simp⟩
      rw [lcsTable, List.tails, List.map_singleton, hzero]
  | cons x a ih =>
      have hhead : (a.tails.map fun t => b.tails.map (lcsLength t)).headD [] =
          b.tails.map (lcsLength a) := by
        cases a <;> simp
      rw [lcsTable, ih, hhead, lcsRow_eq, List.tails_cons, List.map_cons]

theorem cell_lcsTable {a b : List α} {i j : ℕ} (hi : i ≤ a.length) (hj : j ≤ b.length) :
    cell (lcsTable b a) i j = lcsLength (a.drop i) (b.drop j) := by
  rw [cell, lcsTable_eq, getD_map_tails _ a hi, getD_map_tails _ b hj]

end Lib
