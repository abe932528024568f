/-
**Threads in a list.**

Requests that are handled at the same time are threads that take turns, each a place in a list.  A
step replaces one of them.  What holds of every thread, or of any two of them, is kept by a step that
keeps it for the thread that goes on, and for this one with each of the others.

Main definitions:

* `Lib.Apart` — a relation holds between any two of the threads.

Main results:

* `Lib.getElem?_set_of_some` — the threads after a step;
* `Lib.forall_mem_set`, `Lib.Apart.set`, `Lib.Apart.append_singleton` — **what a step, and a new
  thread, keep**.
-/

import Mathlib.Data.List.Basic

set_option relaxedAutoImplicit false
set_option autoImplicit false

namespace Lib

universe u

variable {α : Type u} {l : List α} {i j : ℕ} {a b c : α}

/-! ### A step of one thread -/

theorem getElem?_set_of_some (h : l[i]? = some a) :
    (l.set i b)[j]? = if j = i then some b else l[j]? := by
  obtain ⟨hi, -⟩ := List.getElem?_eq_some_iff.1 h
  rw [List.getElem?_set]
  by_cases hij : j = i
  · rw [if_pos hij, if_pos hij.symm, if_pos (hij ▸ hi)]
  · rw [if_neg hij, if_neg (Ne.symm hij)]

theorem mem_set_self (h : l[i]? = some a) : b ∈ l.set i b := by
  refine List.mem_of_getElem? (i := i) ?_
  rw [getElem?_set_of_some h, if_pos rfl]

/-- The other threads are still there. -/
theorem mem_set_of_ne (h : l[i]? = some a) (hc : c ∈ l) (hne : c ≠ a) : c ∈ l.set i b := by
  obtain ⟨j, hj⟩ := List.mem_iff_getElem?.1 hc
  refine List.mem_of_getElem? (i := j) ?_
  rw [getElem?_set_of_some h, if_neg, hj]
  rintro rfl
  exact hne (Option.some.inj (hj.symm.trans h))

/-- **What holds of every thread.** -/
theorem forall_mem_set {P : α → Prop} (h : ∀ x ∈ l, P x) (hb : P b) : ∀ x ∈ l.set i b, P x := by
  intro x hx
  rcases List.mem_or_eq_of_mem_set hx with hx | rfl
  · exact h x hx
  · exact hb

theorem forall_mem_append_singleton {P : α → Prop} (h : ∀ x ∈ l, P x) (hb : P b) :
    ∀ x ∈ l ++ [b], P x := by
  intro x hx
  rcases List.mem_append.1 hx with hx | hx
  · exact h x hx
  · rw [List.mem_singleton.1 hx]
    exact hb

/-! ### Any two threads -/

/-- The relation holds between any two of the threads, in either order. -/
def Apart (R : α → α → Prop) (l : List α) : Prop :=
  ∀ (i j : ℕ) (a b : α), l[i]? = some a → l[j]? = some b → i ≠ j → R a b

theorem apart_nil (R : α → α → Prop) : Apart R [] := by
  intro i j a b ha
  simp at ha

/-- **What holds between any two threads.** -/
theorem Apart.set {R : α → α → Prop} (h : Apart R l) (hi : l[i]? = some a)
    (hb : ∀ j c, j ≠ i → l[j]? = some c → R b c ∧ R c b) : Apart R (l.set i b) := by
  intro j k c d hc hd hjk
  rw [getElem?_set_of_some hi] at hc hd
  split at hc
  · next hj =>
      obtain rfl := Option.some.inj hc
      rw [if_neg (fun hk => hjk (hj.trans hk.symm))] at hd
      exact (hb k d (fun hk => hjk (hj.trans hk.symm)) hd).1
  · next hj =>
      split at hd
      · obtain rfl := Option.some.inj hd
        exact (hb j c hj hc).2
      · exact h j k c d hc hd hjk

theorem Apart.append_singleton {R : α → α → Prop} (h : Apart R l)
    (hb : ∀ c ∈ l, R b c ∧ R c b) : Apart R (l ++ [b]) := by
  have hlast : ∀ (k : ℕ) (x : α), (l ++ [b])[k]? = some x →
      l[k]? = some x ∨ k = l.length ∧ x = b := by
    intro k x hx
    rw [List.getElem?_append] at hx
    split at hx
    · exact Or.inl hx
    · rw [List.getElem?_singleton] at hx
      split at hx
      · exact Or.inr ⟨by omega, (Option.some.inj hx).symm⟩
      · cases hx
  intro j k c d hc hd hjk
  rcases hlast j c hc with hc' | ⟨hj, hcb⟩
  · rcases hlast k d hd with hd' | ⟨-, hdb⟩
    · exact h j k c d hc' hd' hjk
    · exact hdb ▸ (hb c (List.mem_of_getElem? hc')).2
  · rcases hlast k d hd with hd' | ⟨hk, -⟩
    · exact hcb ▸ (hb d (List.mem_of_getElem? hd')).1
    · exact absurd (hj.trans hk.symm) hjk

theorem Apart.mono {R S : α → α → Prop} (h : Apart R l) (hRS : ∀ a ∈ l, ∀ b ∈ l, R a b → S a b) :
    Apart S l := fun i j a b ha hb hij =>
  hRS a (List.mem_of_getElem? ha) b (List.mem_of_getElem? hb) (h i j a b ha hb hij)

end Lib
