/-
**Parts that occur in order.**

A list of parts occurs in order in a longer list when the parts are disjoint contiguous pieces of
it, one after the other.  One list of parts embeds into another when each of its parts lies inside
a part of the other, again in order and without overlap.  Embeddings compose, and carry occurrence
in order backwards; together these are what a proof needs that follows pieces of a text through a
sequence of edits that cut it up differently each time.

Main definitions:

* `Lib.InOrder` — the parts occur in order;
* `Lib.Embeds` — each part lies inside a part of the other list.

Main results:

* `Lib.Embeds.inOrder`, `Lib.Embeds.trans` — embeddings carry occurrences, and compose;
* `Lib.Embeds.of_sublist`, `Lib.Embeds.append` — embeddings from sublists and by parts.
-/

import Mathlib.Data.List.Infix

set_option relaxedAutoImplicit false
set_option autoImplicit false

namespace Lib

universe u

variable {α : Type u}

/-! ### Occurrence in order -/

/-- The parts occur in the list as disjoint contiguous pieces, in their order. -/
def InOrder : List (List α) → List α → Prop
  | [], _ => True
  | f :: fs, s => ∃ a b, s = a ++ (f ++ b) ∧ InOrder fs b

@[simp] theorem InOrder.nil (s : List α) : InOrder [] s := trivial

theorem InOrder.append_left {fs : List (List α)} {s : List α} (h : InOrder fs s) (p : List α) :
    InOrder fs (p ++ s) := by
  cases fs with
  | nil => trivial
  | cons f fs =>
      obtain ⟨a, b, rfl, hb⟩ := h
      exact ⟨p ++ a, b, by simp, hb⟩

/-- Two occurrences in order, one after the other. -/
theorem InOrder.append {fs gs : List (List α)} {s t : List α} (h : InOrder fs s)
    (h' : InOrder gs t) : InOrder (fs ++ gs) (s ++ t) := by
  induction fs generalizing s with
  | nil => exact h'.append_left s
  | cons f fs ih =>
      obtain ⟨a, b, rfl, hb⟩ := h
      exact ⟨a, b ++ t, by simp, ih hb⟩

theorem InOrder.append_right {fs : List (List α)} {s : List α} (h : InOrder fs s) (q : List α) :
    InOrder fs (s ++ q) := by
  simpa using h.append (InOrder.nil q)

/-- A list occurs in itself, cut up in any way. -/
theorem InOrder.flatten (fs : List (List α)) : InOrder fs fs.flatten := by
  induction fs with
  | nil => trivial
  | cons f fs ih => exact ⟨[], fs.flatten, by simp, ih⟩

/-- Each of the parts is a contiguous piece. -/
theorem InOrder.piece_of_mem {fs : List (List α)} {s f : List α} (h : InOrder fs s) (hf : f ∈ fs) :
    f <:+: s := by
  induction fs generalizing s with
  | nil => simp at hf
  | cons g fs ih =>
      obtain ⟨a, b, rfl, hb⟩ := h
      rcases List.mem_cons.1 hf with rfl | hf
      · exact ⟨a, b, by simp⟩
      · exact (ih hb hf).trans ⟨a ++ g, [], by simp⟩

/-- Only empty parts occur in an empty list. -/
theorem InOrder.eq_nil_of_nil {fs : List (List α)} (h : InOrder fs []) : ∀ f ∈ fs, f = [] := by
  intro f hf
  exact List.infix_nil.1 (h.piece_of_mem hf)

/-! ### Embeddings -/

/-- Each part of the first list that is not empty lies inside a part of the second, in order and
without overlap. -/
inductive Embeds : List (List α) → List (List α) → Prop
  | nil : Embeds [] []
  | empty {fs gs : List (List α)} : Embeds fs gs → Embeds ([] :: fs) gs
  | cons {fs fs' gs : List (List α)} {g : List α} :
      InOrder fs g → Embeds fs' gs → Embeds (fs ++ fs') (g :: gs)

/-- **Embeddings carry occurrences**: what lies inside parts that occur in order does too. -/
theorem Embeds.inOrder {fs gs : List (List α)} {s : List α} (h : Embeds fs gs)
    (hs : InOrder gs s) : InOrder fs s := by
  induction h generalizing s with
  | nil => trivial
  | empty _ ih => exact ⟨[], s, by simp, ih hs⟩
  | cons hg _ ih =>
      obtain ⟨a, b, rfl, hb⟩ := hs
      exact (hg.append (ih hb)).append_left a

theorem Embeds.skip {fs gs : List (List α)} (h : Embeds fs gs) (g : List α) :
    Embeds fs (g :: gs) := Embeds.cons (InOrder.nil g) h

theorem Embeds.keep {fs gs : List (List α)} (h : Embeds fs gs) (g : List α) :
    Embeds (g :: fs) (g :: gs) := by
  have hg : InOrder [g] g := ⟨[], [], by simp, trivial⟩
  exact Embeds.cons hg h

theorem Embeds.of_sublist {fs gs : List (List α)} (h : fs.Sublist gs) : Embeds fs gs := by
  induction h with
  | slnil => exact .nil
  | cons g _ ih => exact ih.skip g
  | cons_cons g _ ih => exact ih.keep g

theorem Embeds.refl (fs : List (List α)) : Embeds fs fs := .of_sublist (List.Sublist.refl fs)

theorem Embeds.append {fs fs' gs gs' : List (List α)} (h : Embeds fs gs) (h' : Embeds fs' gs') :
    Embeds (fs ++ fs') (gs ++ gs') := by
  induction h with
  | nil => exact h'
  | empty _ ih => exact ih.empty
  | cons hg _ ih =>
      rw [List.append_assoc]
      exact Embeds.cons hg ih

/-- Parts that occur in order in one part embed into it. -/
theorem Embeds.of_inOrder {fs : List (List α)} {g : List α} (h : InOrder fs g) :
    Embeds fs [g] := by
  simpa using Embeds.cons h .nil

/-- Empty parts embed into nothing. -/
theorem Embeds.append_empty {es fs gs : List (List α)} (he : ∀ f ∈ es, f = []) (h : Embeds fs gs) :
    Embeds (es ++ fs) gs := by
  induction es with
  | nil => exact h
  | cons f es ih =>
      obtain rfl := he f List.mem_cons_self
      exact (ih fun f hf => he f (List.mem_cons_of_mem _ hf)).empty

/-- An embedding into a nonempty list of parts splits after its first part. -/
theorem Embeds.split {fs gs : List (List α)} {g : List α} (h : Embeds fs (g :: gs)) :
    ∃ es es', fs = es ++ es' ∧ InOrder es g ∧ Embeds es' gs := by
  generalize hc : g :: gs = hs at h
  induction h with
  | nil => simp at hc
  | empty _ ih =>
      obtain ⟨es, es', rfl, he, he'⟩ := ih hc
      exact ⟨[] :: es, es', rfl, ⟨[], g, by simp, he⟩, he'⟩
  | @cons es es' hs' g' he he' _ =>
      obtain ⟨rfl, rfl⟩ := List.cons.inj hc
      exact ⟨es, es', rfl, he, he'⟩

/-- An embedding into two lists of parts splits between them. -/
theorem Embeds.split_append {fs gs gs' : List (List α)} (h : Embeds fs (gs ++ gs')) :
    ∃ es es', fs = es ++ es' ∧ Embeds es gs ∧ Embeds es' gs' := by
  induction gs generalizing fs with
  | nil => exact ⟨[], fs, rfl, .nil, h⟩
  | cons g gs ih =>
      obtain ⟨es, es', rfl, he, he'⟩ := h.split
      obtain ⟨ds, ds', rfl, hd, hd'⟩ := ih he'
      exact ⟨es ++ ds, ds', by simp, .cons he hd, hd'⟩

/-- **Embeddings compose.** -/
theorem Embeds.trans {fs gs hs : List (List α)} (h : Embeds fs gs) (h' : Embeds gs hs) :
    Embeds fs hs := by
  induction h' generalizing fs with
  | nil => exact h
  | empty _ ih =>
      obtain ⟨es, es', rfl, he, he'⟩ := h.split
      exact .append_empty he.eq_nil_of_nil (ih he')
  | cons hg _ ih =>
      obtain ⟨es, es', rfl, he, he'⟩ := h.split_append
      exact .cons (he.inOrder hg) (ih he')

end Lib
