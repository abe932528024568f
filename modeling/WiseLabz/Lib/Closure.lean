/-
**The rows reachable from some seeds.**

A recursive query collects the rows that a relation leads to from its seeds.  Here it adds rows in
rounds, and as every round but the last adds one, as many rounds as there are rows are enough.

Main definitions:

* `Lib.closure` — **the rows reachable from the seeds**.

Main results:

* `Lib.mem_closure` — a row is in the closure exactly when a path of rows leads to it from a seed;
* `Lib.closure_closed` — the closure is closed under the relation.
-/

import Mathlib.Logic.Relation
import Mathlib.Data.List.Basic

set_option relaxedAutoImplicit false
set_option autoImplicit false

namespace Lib

universe u

variable {α : Type u}

/-- A path from a row of a closed list stays in it. -/
theorem mem_of_path {rows : List α} {r : α → α → Bool} {s : List α}
    (hclosed : ∀ x y, x ∈ s → y ∈ rows → r x y = true → y ∈ s)
    {b a : α} (hb : b ∈ s)
    (hpath : Relation.ReflTransGen (fun x y => y ∈ rows ∧ r x y = true) b a) : a ∈ s := by
  induction hpath with
  | refl => exact hb
  | tail _ hstep ih => exact hclosed _ _ ih hstep.1 hstep.2

variable [DecidableEq α]

/-- One round: the rows not yet collected to which a collected one leads. -/
def nextRows (rows : List α) (r : α → α → Bool) (s : List α) : List α :=
  rows.filter fun a => !s.contains a && s.any (r · a)

/-- `fuel` rounds. -/
def grow (rows : List α) (r : α → α → Bool) : ℕ → List α → List α
  | 0, s => s
  | fuel + 1, s => grow rows r fuel (s ++ nextRows rows r s)

/-- **The rows reachable from the seeds.** -/
def closure (rows : List α) (r : α → α → Bool) (seeds : List α) : List α :=
  grow rows r rows.length seeds

variable {rows : List α} {r : α → α → Bool}

theorem mem_nextRows {s : List α} {a : α} :
    a ∈ nextRows rows r s ↔ a ∈ rows ∧ a ∉ s ∧ ∃ b ∈ s, r b a = true := by
  simp [nextRows]

theorem subset_grow (fuel : ℕ) (s : List α) : s ⊆ grow rows r fuel s := by
  induction fuel generalizing s with
  | zero => exact List.Subset.refl s
  | succ fuel ih =>
      intro a ha
      exact ih _ (List.mem_append_left _ ha)

/-- Nothing is collected that no path leads to. -/
theorem path_of_mem_grow {fuel : ℕ} {s : List α} {a : α} (h : a ∈ grow rows r fuel s) :
    ∃ b ∈ s, Relation.ReflTransGen (fun x y => y ∈ rows ∧ r x y = true) b a := by
  induction fuel generalizing s with
  | zero => exact ⟨a, h, .refl⟩
  | succ fuel ih =>
      obtain ⟨b, hb, hpath⟩ := ih h
      rcases List.mem_append.1 hb with hb | hb
      · exact ⟨b, hb, hpath⟩
      · obtain ⟨hrow, -, c, hc, hcb⟩ := mem_nextRows.1 hb
        exact ⟨c, hc, .head ⟨hrow, hcb⟩ hpath⟩

/-- The rows not yet collected get fewer. -/
theorem length_filter_notMem_lt {s t : List α} (hst : s ⊆ t) {a : α} (ha : a ∈ rows) (hs : a ∉ s)
    (ht : a ∈ t) :
    (rows.filter fun b => !t.contains b).length < (rows.filter fun b => !s.contains b).length := by
  have hsub : (rows.filter fun b => !t.contains b).Sublist (rows.filter fun b => !s.contains b) := by
    refine List.monotone_filter_right rows fun b hb => ?_
    simp only [Bool.not_eq_true', List.contains_eq_mem, decide_eq_false_iff_not] at hb ⊢
    exact fun h => hb (hst h)
  refine Nat.lt_of_le_of_ne hsub.length_le fun hlen => ?_
  have heq := hsub.eq_of_length hlen
  have hmem : a ∈ rows.filter fun b => !s.contains b := by simp [ha, hs]
  rw [← heq] at hmem
  simp [ht] at hmem

/-- With a round for each row not yet collected, the result is closed. -/
theorem grow_closed {fuel : ℕ} {s : List α}
    (hfuel : (rows.filter fun b => !s.contains b).length ≤ fuel) {a b : α}
    (ha : a ∈ grow rows r fuel s) (hb : b ∈ rows) (hr : r a b = true) :
    b ∈ grow rows r fuel s := by
  induction fuel generalizing s with
  | zero =>
      have hnil := List.length_eq_zero_iff.1 (Nat.le_zero.1 hfuel)
      have := List.filter_eq_nil_iff.1 hnil b hb
      simpa [grow] using this
  | succ fuel ih =>
      cases hnext : nextRows rows r s with
      | nil =>
          -- the last round: what is collected is closed already
          have hclosed : ∀ x y, x ∈ s → y ∈ rows → r x y = true → y ∈ s := by
            intro x y hx hy hxy
            by_contra hys
            have : y ∈ nextRows rows r s := mem_nextRows.2 ⟨hy, hys, x, hx, hxy⟩
            rw [hnext] at this
            simp at this
          obtain ⟨c, hc, hpath⟩ := path_of_mem_grow ha
          have has : a ∈ s := mem_of_path hclosed hc hpath
          exact subset_grow _ _ (hclosed a b has hb hr)
      | cons c cs =>
          have hc : c ∈ nextRows rows r s := by simp [hnext]
          obtain ⟨hrow, hnot, -⟩ := mem_nextRows.1 hc
          refine ih ?_ ha
          have hlt := length_filter_notMem_lt (t := s ++ nextRows rows r s)
            (List.subset_append_left _ _) hrow hnot (List.mem_append_right _ hc)
          omega

/-- **The closure is closed** under the relation. -/
theorem closure_closed {seeds : List α} {a b : α} (ha : a ∈ closure rows r seeds) (hb : b ∈ rows)
    (hr : r a b = true) : b ∈ closure rows r seeds :=
  grow_closed (List.length_filter_le _ _) ha hb hr

/-- **A row is in the closure exactly when a path leads to it from a seed.** -/
theorem mem_closure {seeds : List α} {a : α} :
    a ∈ closure rows r seeds ↔
      ∃ b ∈ seeds, Relation.ReflTransGen (fun x y => y ∈ rows ∧ r x y = true) b a := by
  constructor
  · exact path_of_mem_grow
  · rintro ⟨b, hb, hpath⟩
    exact mem_of_path (fun x y hx hy hxy => closure_closed hx hy hxy) (subset_grow _ _ hb) hpath

end Lib
