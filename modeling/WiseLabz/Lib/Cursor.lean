/-
**Lists with a cursor.**

A list is worked through from the front: what lies before some place meets one predicate, what lies
behind it another, and at most one element is neither.  Such a list is described by a relation
between any two of its elements, which is easy to keep when one element is replaced, and the
description by a cursor is read off it.

Main definitions:

* `Lib.Around` — of two elements, the earlier meets `p` or the later meets `q`.

Main results:

* `Lib.around_iff_cursor` — **the cursor**: a stretch of `p`, at most one other element, a stretch
  of `q`;
* `Lib.Around.before`, `Lib.Around.after` — what surrounds an element;
* `Lib.exists_split_of_countP_eq_one`, `Lib.map_ite_split` — replacing the only element that meets a
  condition;
* `Lib.split_unique` — an element with a distinct key stands at one place.
-/

import Mathlib.Data.List.Nodup
import Mathlib.Data.List.TakeWhile
import Mathlib.Data.List.Forall2

set_option relaxedAutoImplicit false
set_option autoImplicit false

namespace Lib

universe u v

variable {α : Type u} {β : Type v}

/-! ### Before and behind an element -/

/-- Of two elements, the earlier meets `p` or the later meets `q`. -/
def Around (p q : α → Prop) (l : List α) : Prop := l.Pairwise fun a b => p a ∨ q b

section Around

variable {p q : α → Prop} {pre post : List α} {a : α}

theorem around_append_cons :
    Around p q (pre ++ a :: post) ↔
      Around p q pre ∧ Around p q post ∧ (∀ b ∈ pre, p b ∨ q a) ∧ (∀ b ∈ post, p a ∨ q b) ∧
        ∀ b ∈ pre, ∀ c ∈ post, p b ∨ q c := by
  simp only [Around, List.pairwise_append, List.pairwise_cons, List.mem_cons]
  constructor
  · rintro ⟨hpre, ⟨ha, hpost⟩, hcross⟩
    exact ⟨hpre, hpost, fun b hb => hcross b hb a (Or.inl rfl), ha,
      fun b hb c hc => hcross b hb c (Or.inr hc)⟩
  · rintro ⟨hpre, hpost, hba, ha, hcross⟩
    refine ⟨hpre, ⟨ha, hpost⟩, ?_⟩
    rintro b hb c (rfl | hc)
    · exact hba b hb
    · exact hcross b hb c hc

/-- Before an element that does not meet `q`, all meet `p`. -/
theorem Around.before (h : Around p q (pre ++ a :: post)) (ha : ¬ q a) : ∀ b ∈ pre, p b := by
  intro b hb
  exact ((around_append_cons.1 h).2.2.1 b hb).resolve_right ha

/-- Behind an element that does not meet `p`, all meet `q`. -/
theorem Around.after (h : Around p q (pre ++ a :: post)) (ha : ¬ p a) : ∀ b ∈ post, q b := by
  intro b hb
  exact ((around_append_cons.1 h).2.2.2.1 b hb).resolve_left ha

theorem around_of_forall_left {l : List α} (h : ∀ b ∈ l, p b) : Around p q l :=
  List.pairwise_of_forall_mem_list fun b hb _ _ => Or.inl (h b hb)

theorem around_of_forall_right {l : List α} (h : ∀ b ∈ l, q b) : Around p q l :=
  List.pairwise_of_forall_mem_list fun _ _ c hc => Or.inr (h c hc)

/-- Any element may stand between a stretch of `p` and a stretch of `q`. -/
theorem around_of_split (hpre : ∀ b ∈ pre, p b) (hpost : ∀ b ∈ post, q b) :
    Around p q (pre ++ a :: post) := by
  rw [around_append_cons]
  exact ⟨around_of_forall_left hpre, around_of_forall_right hpost, fun b hb => Or.inl (hpre b hb),
    fun b hb => Or.inr (hpost b hb), fun b hb _ _ => Or.inl (hpre b hb)⟩

theorem Around.map {p' q' : β → Prop} {f : α → β} {l : List α} (h : Around p q l)
    (hp : ∀ a, p a → p' (f a)) (hq : ∀ a, q a → q' (f a)) : Around p' q' (l.map f) := by
  rw [Around, List.pairwise_map]
  exact List.Pairwise.imp (fun {a b} hab => hab.imp (hp a) (hq b)) h

/-- **The cursor**: a stretch of `p`, at most one element that is neither, a stretch of `q`. -/
theorem around_iff_cursor {l : List α} :
    Around p q l ↔
      ∃ pre, ∃ mid : Option α, ∃ post, l = pre ++ (mid.toList ++ post) ∧ (∀ b ∈ pre, p b) ∧
        (∀ b ∈ mid, ¬ p b ∧ ¬ q b) ∧ ∀ b ∈ post, q b := by
  classical
  constructor
  · intro h
    induction l with
    | nil => exact ⟨[], none, [], rfl, by simp, by simp, by simp⟩
    | cons a l ih =>
        by_cases ha : p a
        · obtain ⟨pre, mid, post, rfl, hpre, hmid, hpost⟩ := ih (List.Pairwise.of_cons h)
          refine ⟨a :: pre, mid, post, rfl, ?_, hmid, hpost⟩
          simpa using ⟨ha, hpre⟩
        · have h' : Around p q ([] ++ a :: l) := h
          have hl : ∀ b ∈ l, q b := h'.after ha
          by_cases hqa : q a
          · exact ⟨[], none, a :: l, rfl, by simp, by simp, by simpa using ⟨hqa, hl⟩⟩
          · exact ⟨[], some a, l, rfl, by simp, by simpa using ⟨ha, hqa⟩, hl⟩
  · rintro ⟨pre, mid, post, rfl, hpre, -, hpost⟩
    cases mid with
    | some a => exact around_of_split hpre hpost
    | none =>
        rw [Around, Option.toList_none, List.nil_append, List.pairwise_append]
        exact ⟨around_of_forall_left hpre, around_of_forall_right hpost,
          fun b hb _ _ => Or.inl (hpre b hb)⟩

end Around

/-! ### Replacing one element -/

/-- The only element that meets a condition. -/
theorem exists_split_of_countP_eq_one {p : α → Bool} {l : List α} (h : l.countP p = 1) :
    ∃ pre a post, l = pre ++ a :: post ∧ p a = true ∧ (∀ b ∈ pre, p b = false) ∧
      ∀ b ∈ post, p b = false := by
  induction l with
  | nil => simp at h
  | cons a l ih =>
      by_cases ha : p a = true
      · rw [List.countP_cons_of_pos ha] at h
        have hl : l.countP p = 0 := by omega
        refine ⟨[], a, l, rfl, ha, by simp, ?_⟩
        intro b hb
        simpa using List.countP_eq_zero.1 hl b hb
      · rw [List.countP_cons_of_neg ha] at h
        obtain ⟨pre, b, post, rfl, hb, hpre, hpost⟩ := ih h
        refine ⟨a :: pre, b, post, rfl, hb, ?_, hpost⟩
        intro c hc
        rcases List.mem_cons.1 hc with rfl | hc
        · simpa using ha
        · exact hpre c hc

/-- Rewriting the elements that meet a condition, when one does. -/
theorem map_ite_split {p : α → Bool} {f : α → α} {pre post : List α} {a : α} (ha : p a = true)
    (hpre : ∀ b ∈ pre, p b = false) (hpost : ∀ b ∈ post, p b = false) :
    (pre ++ a :: post).map (fun b => if p b then f b else b) = pre ++ f a :: post := by
  have hid : ∀ l : List α, (∀ b ∈ l, p b = false) →
      l.map (fun b => if p b then f b else b) = l := by
    intro l hl
    conv_rhs => rw [← List.map_id l]
    refine List.map_congr_left fun b hb => ?_
    simp [hl b hb]
  rw [List.map_append, List.map_cons, hid pre hpre, hid post hpost, if_pos ha]

/-- An element with a distinct key stands at one place. -/
theorem split_unique {key : α → β} {pre pre' post post' : List α} {a b : α}
    (hnodup : ((pre ++ a :: post).map key).Nodup) (h : pre ++ a :: post = pre' ++ b :: post')
    (hkey : key a = key b) : pre = pre' ∧ a = b ∧ post = post' := by
  induction pre generalizing pre' with
  | nil =>
      cases pre' with
      | nil =>
          obtain ⟨rfl, rfl⟩ := List.cons.inj h
          exact ⟨rfl, rfl, rfl⟩
      | cons c pre' =>
          obtain ⟨rfl, rfl⟩ := List.cons.inj h
          simp [hkey] at hnodup
  | cons c pre ih =>
      cases pre' with
      | nil =>
          obtain ⟨rfl, rfl⟩ := List.cons.inj h
          simp [hkey] at hnodup
      | cons c' pre' =>
          obtain ⟨rfl, htail⟩ := List.cons.inj h
          obtain ⟨rfl, rfl, rfl⟩ := ih (List.Nodup.of_cons hnodup) htail
          exact ⟨rfl, rfl, rfl⟩

/-- A list related to a concatenation is one. -/
theorem forall₂_append_cons {R : α → β → Prop} {pre post : List α} {a : α} {l : List β} :
    List.Forall₂ R (pre ++ a :: post) l ↔
      ∃ pre' b post', l = pre' ++ b :: post' ∧ List.Forall₂ R pre pre' ∧ R a b ∧
        List.Forall₂ R post post' := by
  constructor
  · intro h
    induction pre generalizing l with
    | nil =>
        cases h with
        | cons hab h => exact ⟨[], _, _, rfl, .nil, hab, h⟩
    | cons c pre ih =>
        cases h with
        | cons hc h =>
            obtain ⟨pre', b, post', rfl, hpre, hab, hpost⟩ := ih h
            exact ⟨_ :: pre', b, post', rfl, .cons hc hpre, hab, hpost⟩
  · rintro ⟨pre', b, post', rfl, hpre, hab, hpost⟩
    exact List.rel_append hpre (.cons hab hpost)

end Lib
