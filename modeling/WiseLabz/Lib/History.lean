/-
**Histories.**

A history is a list that is only extended at its end.  What every entry of it owes to the entries
before it is kept by extending, one new entry at a time.  A flag that one kind of entry sets and
another clears tells whether every entry of the first kind has been followed by one of the second.

Main definitions:

* `Lib.Prior` — every entry stands in a relation to what is before it;
* `Lib.flag` — a flag that some entries set and others clear.

Main results:

* `Lib.prior_append`, `Lib.prior_concat` — what extending a history has to show;
* `Lib.exists_clear_of_flag_eq_false` — **an entry that sets the flag is followed by one that
  clears it**, if the flag is down at the end.
-/

import Mathlib.Data.List.Induction
import Mathlib.Tactic.Tauto

set_option relaxedAutoImplicit false
set_option autoImplicit false

namespace Lib

universe u

variable {α : Type u}

/-! ### What an entry owes to the past -/

/-- Every entry stands in the relation `P` to the entries before it. -/
def Prior (P : List α → α → Prop) (h : List α) : Prop :=
  ∀ pre e post, h = pre ++ e :: post → P pre e

section Prior

variable {P : List α → α → Prop} {h es : List α} {e : α}

@[simp] theorem prior_nil : Prior P [] := by
  intro pre e post hsplit
  simp at hsplit

theorem prior_cons : Prior P (e :: es) ↔ P [] e ∧ Prior (fun pre x => P (e :: pre) x) es := by
  constructor
  · intro hp
    refine ⟨hp [] e es rfl, ?_⟩
    intro pre x post hsplit
    exact hp (e :: pre) x post (by rw [hsplit]; rfl)
  · rintro ⟨he, hes⟩ pre x post hsplit
    cases pre with
    | nil =>
        obtain ⟨rfl, rfl⟩ := List.cons.inj hsplit
        exact he
    | cons c pre =>
        obtain ⟨rfl, htail⟩ := List.cons.inj hsplit
        exact hes pre x post htail

theorem prior_append :
    Prior P (h ++ es) ↔ Prior P h ∧ Prior (fun pre e => P (h ++ pre) e) es := by
  induction h generalizing P with
  | nil => simp
  | cons a h ih =>
      rw [List.cons_append, prior_cons, ih, prior_cons]
      tauto

/-- Extending a history by one entry. -/
theorem prior_concat : Prior P (h ++ [e]) ↔ Prior P h ∧ P h e := by
  rw [prior_append, prior_cons]
  simp

/-- Entries that the relation always holds of extend any history. -/
theorem Prior.append_of_forall (hp : Prior P h) (hes : ∀ e ∈ es, ∀ pre, P pre e) :
    Prior P (h ++ es) := by
  rw [prior_append]
  refine ⟨hp, ?_⟩
  intro pre e post hsplit
  exact hes e (by simp [hsplit]) _

end Prior

/-! ### Flags -/

/-- A flag, up or down before the history: `set` raises it, `clear` lowers it. -/
def flag (set clear : α → Bool) (h : List α) : Bool :=
  h.foldl (fun up e => set e || (up && !clear e)) false

section Flag

variable {set clear : α → Bool} {h es : List α} {e : α}

@[simp] theorem flag_nil : flag set clear [] = false := rfl

theorem flag_concat : flag set clear (h ++ [e]) = (set e || (flag set clear h && !clear e)) := by
  simp [flag]

/-- Entries that do not raise the flag leave it down. -/
theorem flag_append_eq_false (hh : flag set clear h = false) (hes : ∀ e ∈ es, set e = false) :
    flag set clear (h ++ es) = false := by
  induction es generalizing h with
  | nil => simpa using hh
  | cons e es ih =>
      rw [← List.singleton_append, ← List.append_assoc]
      refine ih ?_ fun x hx => hes x (List.mem_cons_of_mem _ hx)
      rw [flag_concat, hh, hes e (List.mem_cons_self ..)]
      rfl

/-- **An entry that sets the flag is followed by one that clears it**, if the flag is down at the
end. -/
theorem exists_clear_of_flag_eq_false {pre post : List α}
    (hflag : flag set clear (pre ++ e :: post) = false) (he : set e = true) :
    ∃ c ∈ post, clear c = true := by
  induction post using List.reverseRecOn with
  | nil =>
      rw [flag_concat, he] at hflag
      simp at hflag
  | append_singleton post c ih =>
      rw [← List.cons_append, ← List.append_assoc, flag_concat] at hflag
      by_cases hc : clear c = true
      · exact ⟨c, by simp, hc⟩
      · have hdown : flag set clear (pre ++ e :: post) = false := by
          simp only [Bool.or_eq_false_iff, Bool.and_eq_false_iff] at hflag
          rcases hflag.2 with hdown | hup
          · exact hdown
          · simp [hc] at hup
        obtain ⟨x, hx, hclear⟩ := ih hdown
        exact ⟨x, by simp [hx], hclear⟩

end Flag

end Lib
