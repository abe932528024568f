/-
**Forests given by the parent of each node.**

A forest is a function from a node to its parent.  A node has a depth when its chain of parents ends
at a root, and then it is on no cycle.  These are the rules for what happens to the depths of a
forest when the parents of some nodes change.

Main definitions:

* `Lib.Below` — one node lies some number of parents below another;
* `Lib.Depth` — **the number of nodes on the chain from a node to its root**.

Main results:

* `Lib.Depth.not_below` — a node with a depth is on no cycle;
* `Lib.Depth.congr` — a depth only depends on the parents along the chain;
* `Lib.Depth.prune` — depths do not grow when parents are cleared;
* `Lib.Depth.move` — the depths after one node has got another parent.
-/

import Mathlib.Order.Basic

set_option relaxedAutoImplicit false
set_option autoImplicit false

namespace Lib

universe u

variable {α : Type u}

/-- `Below up a b k`: from `a`, `k` parents up, is `b`. -/
inductive Below (up : α → Option α) : α → α → ℕ → Prop
  | refl (a : α) : Below up a a 0
  | step {a b c : α} {k : ℕ} : up a = some b → Below up b c k → Below up a c (k + 1)

/-- **The number of nodes on the chain from a node to its root.** -/
inductive Depth (up : α → Option α) : α → ℕ → Prop
  | root {a : α} : up a = none → Depth up a 1
  | child {a b : α} {n : ℕ} : up a = some b → Depth up b n → Depth up a (n + 1)

variable {up up' : α → Option α}

/-! ### Chains -/

/-- The last parent of a chain, seen from its top. -/
theorem Below.top {a c : α} {k : ℕ} (h : Below up a c (k + 1)) :
    ∃ b, up b = some c ∧ Below up a b k := by
  induction k generalizing a with
  | zero =>
      cases h with
      | step ha hb =>
          cases hb
          exact ⟨a, ha, .refl a⟩
  | succ k ih =>
      cases h with
      | step ha hb =>
          obtain ⟨b, hup, hbelow⟩ := ih hb
          exact ⟨b, hup, .step ha hbelow⟩

/-- A chain goes on upwards. -/
theorem Below.snoc {a b c : α} {k : ℕ} (h : Below up a b k) (hup : up b = some c) :
    Below up a c (k + 1) := by
  induction h with
  | refl a => exact .step hup (.refl c)
  | step ha _ ih => exact .step ha (ih hup)

/-- Chains are put together. -/
theorem Below.trans {a b c : α} {j k : ℕ} (h : Below up a b k) (h' : Below up b c j) :
    ∃ n, Below up a c n := by
  induction h with
  | refl a => exact ⟨j, h'⟩
  | step hup _ ih =>
      obtain ⟨n, hn⟩ := ih h'
      exact ⟨n + 1, .step hup hn⟩

/-- The parents along a chain stay in a set that is closed under parents. -/
theorem Below.mem {S : α → Prop} (hS : ∀ a b, S a → up a = some b → S b) {a b : α} {k : ℕ}
    (h : Below up a b k) (ha : S a) : S b := by
  induction h with
  | refl a => exact ha
  | step hup _ ih => exact ih (hS _ _ ha hup)

/-! ### Depths -/

theorem Depth.pos {a : α} {n : ℕ} (h : Depth up a n) : 0 < n := by
  cases h with
  | root => exact Nat.one_pos
  | child => exact Nat.succ_pos _

theorem Depth.unique {a : α} {m n : ℕ} (h : Depth up a m) (h' : Depth up a n) : m = n := by
  induction h generalizing n with
  | root hup =>
      cases h' with
      | root => rfl
      | child hup' => rw [hup] at hup'; cases hup'
  | child hup _ ih =>
      cases h' with
      | root hup' => rw [hup] at hup'; cases hup'
      | child hup' hb' =>
          rw [hup] at hup'
          cases hup'
          rw [ih hb']

/-- The depth at the bottom of a chain. -/
theorem Depth.of_below {a b : α} {k n : ℕ} (h : Below up a b k) (hb : Depth up b n) :
    Depth up a (n + k) := by
  induction h with
  | refl a => exact hb
  | step hup _ ih => exact .child hup (ih hb)

/-- **A node with a depth is on no cycle.** -/
theorem Depth.not_below {a : α} {n k : ℕ} (h : Depth up a n) : ¬ Below up a a (k + 1) := by
  intro hcycle
  have := h.unique (Depth.of_below hcycle h)
  omega

/-- **A depth only depends on the parents along the chain.** -/
theorem Depth.congr {S : α → Prop} (hS : ∀ a b, S a → up a = some b → S b)
    (hup : ∀ a, S a → up' a = up a) {a : α} {n : ℕ} (h : Depth up a n) (ha : S a) :
    Depth up' a n := by
  induction h with
  | root hroot => exact .root (by rw [hup _ ha, hroot])
  | child hchild _ ih => exact .child (by rw [hup _ ha, hchild]) (ih (hS _ _ ha hchild))

/-- **Depths do not grow when parents are cleared.** -/
theorem Depth.prune (hup : ∀ a, up' a = up a ∨ up' a = none) {a : α} {n : ℕ} (h : Depth up a n) :
    ∃ m, m ≤ n ∧ Depth up' a m := by
  induction h with
  | root hroot =>
      refine ⟨1, Nat.le_refl 1, .root ?_⟩
      rcases hup _ with heq | hnone
      · rw [heq, hroot]
      · exact hnone
  | @child a b n hchild hb ih =>
      rcases hup a with heq | hnone
      · obtain ⟨m, hle, hm⟩ := ih
        exact ⟨m + 1, Nat.succ_le_succ hle, .child (by rw [heq, hchild]) hm⟩
      · exact ⟨1, Nat.succ_le_succ (Nat.zero_le n), .root hnone⟩

/-- **The depths after one node has got another parent**: a node that was not below it keeps its
depth, and the others follow the moved node. -/
theorem Depth.move {x : α} (hup : ∀ a, a ≠ x → up' a = up a) {m : ℕ} (hx : Depth up' x m) {a : α}
    {n : ℕ} (h : Depth up a n) :
    Depth up' a n ∨ ∃ k, Below up a x k ∧ Depth up' a (m + k) := by
  induction h with
  | @root a hroot =>
      rcases Classical.em (a = x) with rfl | hne
      · exact Or.inr ⟨0, .refl a, hx⟩
      · exact Or.inl (.root (by rw [hup a hne, hroot]))
  | @child a b n hchild hb ih =>
      rcases Classical.em (a = x) with rfl | hne
      · exact Or.inr ⟨0, .refl a, hx⟩
      · have hchild' : up' a = some b := by rw [hup a hne, hchild]
        rcases ih with hb' | ⟨k, hbelow, hb'⟩
        · exact Or.inl (.child hchild' hb')
        · exact Or.inr ⟨k + 1, .step hchild hbelow, .child hchild' hb'⟩

end Lib
