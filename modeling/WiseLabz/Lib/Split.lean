/-
**Lists cut and split at a separator.**

A list is cut at the first occurrence of a separator, or split at all of them.  When a list is the
concatenation of the texts of some tokens, and the separator occurs in the text of one token only,
the parts of the concatenation are the texts of the parts of the token list.

Main definitions:

* `Lib.cut` — what stands before the first separator, and what stands after it.

Main results:

* `Lib.cut_eq_some`, `Lib.cut_append` — where a list is cut;
* `Lib.splitOn_flatMap` — **the parts of a concatenation of texts**.
-/

import Mathlib.Data.List.Basic

set_option relaxedAutoImplicit false
set_option autoImplicit false

namespace Lib

universe u v

variable {α : Type u} {β : Type v} [DecidableEq α] [DecidableEq β]

/-! ### Cutting -/

/-- What stands before the first separator, and what stands after it if there is one. -/
def cut (sep : α) : List α → List α × Option (List α)
  | [] => ([], none)
  | a :: s => if a = sep then ([], some s) else (a :: (cut sep s).1, (cut sep s).2)

theorem not_mem_cut (sep : α) (s : List α) : sep ∉ (cut sep s).1 := by
  induction s with
  | nil => exact List.not_mem_nil
  | cons a s ih =>
      rw [cut]
      split
      · exact List.not_mem_nil
      · next hne => exact fun h => (List.mem_cons.1 h).elim (fun heq => hne heq.symm) ih

theorem cut_eq_some {sep : α} {s r : List α} (h : (cut sep s).2 = some r) :
    s = (cut sep s).1 ++ sep :: r := by
  induction s with
  | nil => cases h
  | cons a s ih =>
      rw [cut] at h ⊢
      split
      · next heq =>
          rw [if_pos heq] at h
          rw [heq, List.nil_append, Option.some.inj h]
      · next hne =>
          rw [if_neg hne] at h
          exact congrArg (a :: ·) (ih h)

theorem cut_eq_none {sep : α} {s : List α} (h : (cut sep s).2 = none) : (cut sep s).1 = s := by
  induction s with
  | nil => rfl
  | cons a s ih =>
      rw [cut] at h ⊢
      split
      · next heq =>
          rw [if_pos heq] at h
          cases h
      · next hne =>
          rw [if_neg hne] at h
          exact congrArg (a :: ·) (ih h)

/-- A list with a separator is cut before what is appended to it. -/
theorem cut_append_of_mem {sep : α} {s : List α} (r : List α) (h : sep ∈ s) :
    cut sep (s ++ r) = ((cut sep s).1, (cut sep s).2.map (· ++ r)) := by
  induction s with
  | nil => exact absurd h List.not_mem_nil
  | cons a s ih =>
      by_cases ha : a = sep
      · rw [List.cons_append, cut, cut, if_pos ha, if_pos ha]
        rfl
      · have hs : sep ∈ s := (List.mem_cons.1 h).resolve_left (Ne.symm ha)
        rw [List.cons_append, cut, cut, if_neg ha, if_neg ha, ih hs]

/-- A list without a separator is cut in what is appended to it. -/
theorem cut_append_of_not_mem {sep : α} {s : List α} (r : List α) (h : sep ∉ s) :
    cut sep (s ++ r) = (s ++ (cut sep r).1, (cut sep r).2) := by
  induction s with
  | nil => rfl
  | cons a s ih =>
      obtain ⟨hne, hs⟩ := not_or.1 (mt List.mem_cons.2 h)
      rw [List.cons_append, cut, if_neg (Ne.symm hne), ih hs]
      rfl

/-- A list is cut at its first separator. -/
theorem cut_append {sep : α} {s : List α} (r : List α) (h : sep ∉ s) :
    cut sep (s ++ sep :: r) = (s, some r) := by
  rw [cut_append_of_not_mem _ h, cut, if_pos rfl, List.append_nil]

theorem cut_of_not_mem {sep : α} {s : List α} (h : sep ∉ s) : cut sep s = (s, none) := by
  have hcut := cut_append_of_not_mem [] h
  rwa [List.append_nil, cut, List.append_nil] at hcut

/-- What stands after the first separator is shorter. -/
theorem length_lt_of_cut {sep : α} {s r : List α} (h : (cut sep s).2 = some r) :
    r.length < s.length := by
  have hlength := congrArg List.length (cut_eq_some h)
  rw [List.length_append, List.length_cons] at hlength
  omega

/-! ### Splitting -/

/-- A piece without the separator belongs to the first part. -/
theorem splitOn_append {sep : α} {p : List α} (s : List α) (h : sep ∉ p) :
    (p ++ s).splitOn sep = (s.splitOn sep).modifyHead (p ++ ·) := by
  induction p with
  | nil =>
      rw [List.nil_append]
      cases s.splitOn sep <;> rfl
  | cons a p ih =>
      obtain ⟨hne, hp⟩ := not_or.1 (mt List.mem_cons.2 h)
      rw [List.cons_append, List.splitOn_cons_eq_if_modifyHead, ih hp,
        if_neg (by simpa using Ne.symm hne)]
      cases s.splitOn sep <;> rfl

theorem mem_of_mem_splitOn {sep : α} {s p : List α} {a : α} (hp : p ∈ s.splitOn sep)
    (ha : a ∈ p) : a ∈ s := by
  induction s generalizing p with
  | nil =>
      rw [List.mem_singleton.1 hp] at ha
      exact ha
  | cons b s ih =>
      rw [List.splitOn_cons_eq_if_modifyHead] at hp
      split at hp
      · rcases List.mem_cons.1 hp with rfl | hp
        · exact absurd ha List.not_mem_nil
        · exact List.mem_cons_of_mem _ (ih hp ha)
      · cases hsplit : s.splitOn sep with
        | nil => exact absurd hsplit (List.splitOn_ne_nil _ _)
        | cons q qs =>
            rw [hsplit] at hp ih
            rcases List.mem_cons.1 hp with rfl | hp
            · rcases List.mem_cons.1 ha with rfl | ha
              · exact List.mem_cons_self
              · exact List.mem_cons_of_mem _ (ih List.mem_cons_self ha)
            · exact List.mem_cons_of_mem _ (ih (List.mem_cons_of_mem _ hp) ha)

/-- **The parts of a concatenation of texts**, when one token stands for the separator and the text
of no other has it. -/
theorem splitOn_flatMap {sep : α} {token : β} {text : β → List α} {ts : List β}
    (htoken : text token = [sep]) (hother : ∀ t ∈ ts, t ≠ token → sep ∉ text t) :
    (ts.flatMap text).splitOn sep = (ts.splitOn token).map (List.flatMap text) := by
  induction ts with
  | nil => rfl
  | cons t ts ih =>
      have ih := ih fun t' ht' => hother t' (List.mem_cons_of_mem _ ht')
      rw [List.flatMap_cons, List.splitOn_cons_eq_if_modifyHead]
      by_cases ht : t = token
      · rw [ht, htoken, List.singleton_append, List.splitOn_cons_eq_if_modifyHead, ih]
        simp
      · rw [splitOn_append _ (hother t List.mem_cons_self ht), ih, if_neg (by simpa using ht)]
        cases ts.splitOn token <;> rfl

end Lib
