/-
**Grouping by a key.**

A map from keys to lists is filled by appending each value to the list of its key.  It is kept here
with its keys in the order in which they came, and a loop over the map visits its entries in any
order.

Main definitions:

* `Lib.push`, `Lib.group` — appending to the list of a key, and filling a map;
* `Lib.MapOrder` — **an order in which a loop visits the entries of a map**.

Main results:

* `Lib.keyNodup_group` — a key has one entry;
* `Lib.mem_group` — **the entry of a key**: its values, in their order;
* `Lib.flatten_group_perm` — the map holds each value once.
-/

import WiseLabz.Lib.Table
import Mathlib.Data.List.Induction

set_option relaxedAutoImplicit false
set_option autoImplicit false

namespace Lib

universe u v

variable {κ : Type u} {α : Type v} [DecidableEq κ]

/-- `m[k] = append(m[k], v)`. -/
def push : List (κ × List α) → κ → α → List (κ × List α)
  | [], k, v => [(k, [v])]
  | (k', vs) :: m, k, v => if k' = k then (k', vs ++ [v]) :: m else (k', vs) :: push m k v

/-- The map filled with some values under their keys. -/
def group (ps : List (κ × α)) : List (κ × List α) := ps.foldl (fun m p => push m p.1 p.2) []

/-- The values of a key. -/
def valuesOf (k : κ) (ps : List (κ × α)) : List α := (ps.filter (·.1 = k)).map Prod.snd

theorem mem_keys_push {m : List (κ × List α)} {k j : κ} {v : α} :
    j ∈ (push m k v).map Prod.fst ↔ j = k ∨ j ∈ m.map Prod.fst := by
  induction m with
  | nil => simp [push]
  | cons e m ih =>
      obtain ⟨k', vs⟩ := e
      rw [push]
      split
      · next h =>
          subst h
          simp
      · rw [List.map_cons, List.mem_cons, ih, List.map_cons, List.mem_cons]
        exact or_left_comm

theorem KeyNodup.push {m : List (κ × List α)} (h : KeyNodup Prod.fst m) (k : κ) (v : α) :
    KeyNodup Prod.fst (push m k v) := by
  induction m with
  | nil => simp [Lib.push, KeyNodup]
  | cons e m ih =>
      obtain ⟨k', vs⟩ := e
      obtain ⟨hnot, hm⟩ := List.nodup_cons.1 h
      rw [Lib.push]
      split
      · exact List.nodup_cons.2 ⟨hnot, hm⟩
      · next hne =>
          refine List.nodup_cons.2 ⟨?_, ih hm⟩
          rw [mem_keys_push]
          exact not_or.2 ⟨hne, hnot⟩

/-- The entries after a value was appended. -/
theorem mem_push {m : List (κ × List α)} (h : KeyNodup Prod.fst m) {k j : κ} {v : α}
    {vs : List α} : (j, vs) ∈ push m k v ↔
      (j ≠ k ∧ (j, vs) ∈ m) ∨
        (j = k ∧ ((∃ us, (k, us) ∈ m ∧ vs = us ++ [v]) ∨ (k ∉ m.map Prod.fst ∧ vs = [v]))) := by
  induction m with
  | nil =>
      rw [push, List.mem_singleton, Prod.mk.injEq]
      simp
  | cons e m ih =>
      obtain ⟨k', us⟩ := e
      obtain ⟨hnot, hm⟩ := List.nodup_cons.1 h
      have hone : ∀ ws, (k', ws) ∉ m := fun ws hws => hnot (List.mem_map.2 ⟨_, hws, rfl⟩)
      rw [push]
      split
      · next hk =>
          subst hk
          by_cases hj : j = k'
          · subst hj
            simp [hone]
          · simp [hj]
      · next hk =>
          rw [List.mem_cons, ih hm]
          by_cases hj : j = k
          · subst hj
            simp [Ne.symm hk]
          · simp [hj]

theorem keyNodup_group (ps : List (κ × α)) : KeyNodup Prod.fst (group ps) := by
  have hfold : ∀ m : List (κ × List α), KeyNodup Prod.fst m →
      KeyNodup Prod.fst (ps.foldl (fun m p => push m p.1 p.2) m) := by
    induction ps with
    | nil => exact fun m h => h
    | cons p ps ih => exact fun m h => ih _ (h.push p.1 p.2)
  exact hfold [] List.nodup_nil

theorem group_append_singleton (ps : List (κ × α)) (p : κ × α) :
    group (ps ++ [p]) = push (group ps) p.1 p.2 := by
  rw [group, List.foldl_append]
  rfl

theorem valuesOf_append_singleton (ps : List (κ × α)) (p : κ × α) (k : κ) :
    valuesOf k (ps ++ [p]) = if p.1 = k then valuesOf k ps ++ [p.2] else valuesOf k ps := by
  by_cases h : p.1 = k
  · simp [valuesOf, h]
  · simp [valuesOf, h]

/-- **The entry of a key**: there is one if the key has values, and it lists them in their order. -/
theorem mem_group {ps : List (κ × α)} {k : κ} {vs : List α} :
    (k, vs) ∈ group ps ↔ vs = valuesOf k ps ∧ vs ≠ [] := by
  induction ps using List.reverseRecOn generalizing k vs with
  | nil => simp [group, valuesOf]
  | append_singleton ps p ih =>
      have habsent : p.1 ∉ (group ps).map Prod.fst ↔ valuesOf p.1 ps = [] := by
        rw [List.mem_map, Prod.exists]
        simp only [exists_and_right, exists_eq_right, ih, not_exists]
        constructor
        · intro h
          by_contra hne
          exact h _ ⟨rfl, hne⟩
        · rintro h _ ⟨rfl, hne⟩
          exact hne h
      rw [group_append_singleton, mem_push (keyNodup_group ps), valuesOf_append_singleton]
      by_cases hk : p.1 = k
      · subst hk
        simp only [ne_eq, not_true_eq_false, false_and, true_and, false_or, if_true, ih, habsent]
        constructor
        · rintro (⟨us, ⟨rfl, -⟩, rfl⟩ | ⟨hnil, rfl⟩)
          · exact ⟨rfl, by simp⟩
          · exact ⟨by rw [hnil, List.nil_append], by simp⟩
        · rintro ⟨rfl, -⟩
          by_cases hnil : valuesOf p.1 ps = []
          · exact Or.inr ⟨hnil, by rw [hnil, List.nil_append]⟩
          · exact Or.inl ⟨_, ⟨rfl, hnil⟩, rfl⟩
      · rw [if_neg hk]
        simp [Ne.symm hk, ih]

theorem mem_valuesOf {ps : List (κ × α)} {k : κ} {v : α} : v ∈ valuesOf k ps ↔ (k, v) ∈ ps := by
  simp [valuesOf]

/-- What the lists of the map hold. -/
theorem mem_of_mem_group {ps : List (κ × α)} {k : κ} {vs : List α} (h : (k, vs) ∈ group ps) {v : α}
    (hv : v ∈ vs) : (k, v) ∈ ps := by
  rw [(mem_group.1 h).1] at hv
  exact mem_valuesOf.1 hv

theorem exists_mem_group {ps : List (κ × α)} {k : κ} {v : α} (h : (k, v) ∈ ps) :
    ∃ vs, (k, vs) ∈ group ps ∧ v ∈ vs := by
  have hv := mem_valuesOf.2 h
  exact ⟨_, mem_group.2 ⟨rfl, List.ne_nil_of_mem hv⟩, hv⟩

theorem flatten_push_perm (m : List (κ × List α)) (k : κ) (v : α) :
    ((push m k v).map Prod.snd).flatten.Perm ((m.map Prod.snd).flatten ++ [v]) := by
  induction m with
  | nil => rfl
  | cons e m ih =>
      obtain ⟨k', vs⟩ := e
      rw [push]
      split
      · rw [List.map_cons, List.flatten_cons, List.map_cons, List.flatten_cons, List.append_assoc,
          List.append_assoc]
        exact List.perm_append_comm.append_left vs
      · rw [List.map_cons, List.flatten_cons, List.map_cons, List.flatten_cons, List.append_assoc]
        exact ih.append_left vs

/-- **The map holds each value once.** -/
theorem flatten_group_perm (ps : List (κ × α)) :
    ((group ps).map Prod.snd).flatten.Perm (ps.map Prod.snd) := by
  induction ps using List.reverseRecOn with
  | nil => rfl
  | append_singleton ps p ih =>
      rw [group_append_singleton, List.map_append]
      exact (flatten_push_perm _ _ _).trans (ih.append_right _)

/-! ### Visiting the entries -/

/-- **An order in which a loop visits the entries of a map**, whatever they are. -/
structure MapOrder (α : Type v) where
  visit : List α → List α
  perm : ∀ l, (visit l).Perm l

/-- The order in which the keys came. -/
def MapOrder.inserted (α : Type v) : MapOrder α := ⟨id, fun _ => .refl _⟩

/-- The opposite order. -/
def MapOrder.backwards (α : Type v) : MapOrder α := ⟨List.reverse, List.reverse_perm⟩

end Lib
