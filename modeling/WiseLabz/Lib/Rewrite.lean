/-
**A map changed key by key.**

A loop goes through a list of fields and replaces, or refuses, the value under the key of each.  If
no two fields have one key, each value is changed once, and from what it was before the loop.

Main definitions:

* `Lib.rewrite` — the loop, which fails where a value is refused;
* `Lib.rewriteAll` — the loop where no value is.

Main results:

* `Lib.rewrite_eq_some`, `Lib.rewriteAll_of_mem` — **what is under a key after the loop**.
-/

import Mathlib.Data.List.Nodup
import Mathlib.Logic.Function.Basic

set_option relaxedAutoImplicit false
set_option autoImplicit false

namespace Lib

universe u v w

variable {α : Type u} {κ : Type v} {β : Type w} [DecidableEq κ] {key : α → κ}

/-- The values under the keys of the fields are replaced, or one of them is refused. -/
def rewrite (key : α → κ) (g : α → Option β → Option (Option β)) :
    List α → (κ → Option β) → Option (κ → Option β)
  | [], m => some m
  | x :: xs, m => (g x (m (key x))).bind fun v => rewrite key g xs (Function.update m (key x) v)

/-- The values under the keys of the fields are replaced. -/
def rewriteAll (key : α → κ) (g : α → Option β → Option β) (xs : List α) (m : κ → Option β) :
    κ → Option β :=
  xs.foldl (fun m x => Function.update m (key x) (g x (m (key x)))) m

theorem rewrite_some (g : α → Option β → Option β) (xs : List α) (m : κ → Option β) :
    rewrite key (fun x v => some (g x v)) xs m = some (rewriteAll key g xs m) := by
  induction xs generalizing m with
  | nil => rfl
  | cons x xs ih => exact ih _

/-- **What is under a key after the loop**: what the field makes of the value before it, and the
other values are unchanged. -/
theorem rewrite_eq_some {g : α → Option β → Option (Option β)} {xs : List α}
    {m m' : κ → Option β} (hnodup : (xs.map key).Nodup) :
    rewrite key g xs m = some m' ↔
      (∀ x ∈ xs, g x (m (key x)) = some (m' (key x))) ∧ ∀ k, k ∉ xs.map key → m' k = m k := by
  induction xs generalizing m with
  | nil =>
      rw [rewrite, Option.some_inj]
      constructor
      · rintro rfl
        exact ⟨by simp, fun k _ => rfl⟩
      · exact fun h => funext fun k => (h.2 k (by simp)).symm
  | cons x xs ih =>
      obtain ⟨hx, hxs⟩ := List.nodup_cons.1 (show (key x :: xs.map key).Nodup from hnodup)
      have hne : ∀ y ∈ xs, key y ≠ key x := fun y hy hkey => hx (hkey ▸ List.mem_map_of_mem hy)
      rw [rewrite, Option.bind_eq_some_iff]
      constructor
      · rintro ⟨v, hv, hrest⟩
        obtain ⟨hmem, hother⟩ := (ih hxs).1 hrest
        constructor
        · intro y hy
          rcases List.mem_cons.1 hy with rfl | hy
          · rw [hother _ hx, Function.update_self]
            exact hv
          · rw [← hmem y hy, Function.update_of_ne (hne y hy)]
        · intro k hk
          rw [List.map_cons, List.mem_cons, not_or] at hk
          rw [hother k hk.2, Function.update_of_ne hk.1]
      · rintro ⟨hmem, hother⟩
        refine ⟨m' (key x), hmem x List.mem_cons_self, (ih hxs).2 ⟨?_, ?_⟩⟩
        · intro y hy
          rw [Function.update_of_ne (hne y hy)]
          exact hmem y (List.mem_cons_of_mem x hy)
        · intro k hk
          by_cases hkx : k = key x
          · rw [hkx, Function.update_self]
          · rw [Function.update_of_ne hkx]
            exact hother k (by simp [hkx, hk])

theorem rewriteAll_of_mem {g : α → Option β → Option β} {xs : List α} {m : κ → Option β}
    (hnodup : (xs.map key).Nodup) {x : α} (hx : x ∈ xs) :
    rewriteAll key g xs m (key x) = g x (m (key x)) :=
  (Option.some.inj (((rewrite_eq_some hnodup).1 (rewrite_some g xs m)).1 x hx)).symm

end Lib
