/-
**Deleting by batches.**

A statement deletes some of the rows that are due, as many as a limit allows, and it is not said
which; a loop repeats it until a statement deletes fewer.  Whether a row is due may depend on the
other rows, as long as it does not on those that are due themselves: then no statement takes from
another what it looks for, and the loop deletes what was due at its start.

Main definitions:

* `Lib.Batches.Batch` — what one statement deletes;
* `Lib.Batches.Loop` — what the loop deletes, by how many statements;
* `Lib.Batches.Stable` — being due does not depend on rows that are due.

Main results:

* `Lib.Batches.exists_batch`, `Lib.Batches.exists_loop` — a statement, and the loop, have an answer;
* `Lib.Batches.Loop.spec` — **the loop deletes the rows that were due**, all of them and no others.
-/

import Mathlib.Data.List.Perm.Basic
import Mathlib.Data.List.Count
import Mathlib.Data.Nat.Init

set_option relaxedAutoImplicit false
set_option autoImplicit false

namespace Lib.Batches

universe u

variable {α : Type u} (due : List α → α → Bool) (limit : ℕ)

/-! ### Statements and the loop -/

/-- **One statement**: `gone` are the rows it deletes, and `rest` the ones it leaves. -/
structure Batch (rows rest gone : List α) : Prop where
  perm : rows.Perm (gone ++ rest)
  sublist : rest.Sublist rows
  chosen : ∀ a ∈ gone, due rows a = true
  full : gone.length = min limit (rows.countP (due rows))

/-- **The loop**: `total` rows are deleted by `statements` statements. -/
inductive Loop (rest : List α) : (rows : List α) → (total statements : ℕ) → Prop
  | last {rows gone : List α} : Batch due limit rows rest gone → gone.length < limit →
      Loop rest rows gone.length 1
  | more {rows mid gone : List α} {total statements : ℕ} : Batch due limit rows mid gone →
      ¬ gone.length < limit → Loop rest mid total statements →
        Loop rest rows (gone.length + total) (statements + 1)

/-- **Being due does not depend on rows that are due.** -/
def Stable : Prop :=
  ∀ rows rest gone : List α, rows.Perm (gone ++ rest) → (∀ a ∈ gone, due rows a = true) →
    ∀ a ∈ rest, due rest a = due rows a

/-! ### A statement has an answer -/

theorem exists_gone (p : α → Bool) (rows : List α) {m : ℕ} (hm : m ≤ rows.countP p) :
    ∃ gone rest : List α, rows.Perm (gone ++ rest) ∧ rest.Sublist rows ∧
      (∀ a ∈ gone, p a = true) ∧ gone.length = m := by
  induction rows generalizing m with
  | nil =>
      obtain rfl : m = 0 := Nat.le_zero.1 hm
      exact ⟨[], [], .refl _, .refl _, fun _ h => absurd h List.not_mem_nil, rfl⟩
  | cons a rows ih =>
      cases m with
      | zero => exact ⟨[], a :: rows, .refl _, .refl _, fun _ h => absurd h List.not_mem_nil, rfl⟩
      | succ m =>
          by_cases ha : p a = true
          · rw [List.countP_cons_of_pos ha] at hm
            obtain ⟨gone, rest, hperm, hsublist, hdue, hlength⟩ := ih (Nat.le_of_succ_le_succ hm)
            exact ⟨a :: gone, rest, hperm.cons a, hsublist.cons a,
              List.forall_mem_cons.2 ⟨ha, hdue⟩, congrArg Nat.succ hlength⟩
          · rw [List.countP_cons_of_neg ha] at hm
            obtain ⟨gone, rest, hperm, hsublist, hdue, hlength⟩ := ih hm
            exact ⟨gone, a :: rest, (hperm.cons a).trans List.perm_middle.symm,
              hsublist.cons_cons a, hdue, hlength⟩

theorem exists_batch (rows : List α) : ∃ rest gone, Batch due limit rows rest gone := by
  obtain ⟨gone, rest, hperm, hsublist, hdue, hlength⟩ :=
    exists_gone (due rows) rows (Nat.min_le_right limit _)
  exact ⟨rest, gone, hperm, hsublist, hdue, hlength⟩

/-! ### What is left -/

section Stable

variable {due limit} {rows rest gone : List α}

theorem Batch.countP (h : Batch due limit rows rest gone) (hstable : Stable due) :
    rows.countP (due rows) = gone.length + rest.countP (due rest) := by
  have hrest : rest.countP (due rest) = rest.countP (due rows) :=
    List.countP_congr fun a ha => by rw [hstable rows rest gone h.perm h.chosen a ha]
  rw [hrest, h.perm.countP_eq, List.countP_append, List.countP_eq_length.2 h.chosen]

/-- **A statement that deletes fewer rows than its limit leaves none that is due.** -/
theorem Batch.none_left (h : Batch due limit rows rest gone) (hstable : Stable due)
    (hlast : gone.length < limit) : ∀ a ∈ rest, due rest a = false := by
  have hfull := h.full
  have hcount := h.countP hstable
  have hzero : rest.countP (due rest) = 0 := by omega
  intro a ha
  exact Bool.eq_false_iff.2 (List.countP_eq_zero.1 hzero a ha)

/-- A sublist without rows that are due, next to rows that are. -/
theorem eq_filter {p : α → Bool} (hperm : rows.Perm (gone ++ rest)) (hsublist : rest.Sublist rows)
    (hgone : ∀ a ∈ gone, p a = true) (hrest : ∀ a ∈ rest, p a = false) :
    rest = rows.filter fun a => !p a := by
  have hfilter : rest.filter (fun a => !p a) = rest :=
    List.filter_eq_self.2 fun a ha => by rw [hrest a ha]; rfl
  have hnone : gone.filter (fun a => !p a) = [] :=
    List.filter_eq_nil_iff.2 fun a ha => by rw [hgone a ha]; decide
  have hlength := (hperm.filter fun a => !p a).length_eq
  rw [List.filter_append, hnone, List.nil_append, hfilter] at hlength
  exact (hfilter ▸ hsublist.filter fun a => !p a).eq_of_length hlength.symm

/-- **The loop deletes the rows that were due** at its start, whichever rows its statements choose,
and stops after the first statement that finds fewer of them than its limit. -/
theorem Loop.spec {total statements : ℕ} (h : Loop due limit rest rows total statements)
    (hstable : Stable due) (hlimit : 0 < limit) :
    rest = rows.filter (fun a => !due rows a) ∧ total = rows.countP (due rows) ∧
      statements = total / limit + 1 := by
  have hparts : ∃ gone, rows.Perm (gone ++ rest) ∧ rest.Sublist rows ∧
      (∀ a ∈ gone, due rows a = true) ∧ (∀ a ∈ rest, due rows a = false) ∧
      gone.length = total ∧ statements = total / limit + 1 := by
    induction h with
    | @last rows gone hbatch hlast =>
        refine ⟨gone, hbatch.perm, hbatch.sublist, hbatch.chosen, fun a ha => ?_, rfl, ?_⟩
        · rw [← hstable rows rest gone hbatch.perm hbatch.chosen a ha]
          exact hbatch.none_left hstable hlast a ha
        · rw [Nat.div_eq_of_lt hlast]
    | @more rows mid gone total statements hbatch hmore _ ih =>
        obtain ⟨gone', hperm, hsublist, hdue, hrest, hlength, hstatements⟩ := ih
        have hsame := hstable rows mid gone hbatch.perm hbatch.chosen
        have hmem : ∀ a ∈ gone', a ∈ mid := fun a ha =>
          hperm.mem_iff.2 (List.mem_append_left _ ha)
        refine ⟨gone ++ gone', ?_, hsublist.trans hbatch.sublist, fun a ha => ?_, fun a ha => ?_,
          ?_, ?_⟩
        · rw [List.append_assoc]
          exact hbatch.perm.trans (hperm.append_left gone)
        · rcases List.mem_append.1 ha with ha | ha
          · exact hbatch.chosen a ha
          · exact hsame a (hmem a ha) ▸ hdue a ha
        · exact hsame a (hsublist.subset ha) ▸ hrest a ha
        · rw [List.length_append, hlength]
        · have hfull : gone.length = limit := by
            have := hbatch.full
            omega
          rw [hstatements, hfull, Nat.add_div_left _ hlimit]
  obtain ⟨gone, hperm, hsublist, hgone, hrest, hlength, hstatements⟩ := hparts
  refine ⟨eq_filter hperm hsublist hgone hrest, ?_, hstatements⟩
  have hzero : rest.countP (due rows) = 0 :=
    List.countP_eq_zero.2 fun a ha => by rw [hrest a ha]; decide
  rw [hperm.countP_eq, List.countP_append, List.countP_eq_length.2 hgone, hzero, hlength,
    Nat.add_zero]

/-- **The loop comes to an end.** -/
theorem exists_loop (hstable : Stable due) (hlimit : 0 < limit) (rows : List α) :
    ∃ rest total statements, Loop due limit rest rows total statements := by
  induction hn : rows.countP (due rows) using Nat.strongRecOn generalizing rows with
  | ind n ih =>
      obtain ⟨rest, gone, hbatch⟩ := exists_batch due limit rows
      by_cases hlast : gone.length < limit
      · exact ⟨rest, _, _, .last hbatch hlast⟩
      · have hcount := hbatch.countP hstable
        obtain ⟨rest', total, statements, hloop⟩ := ih _ (by omega) rest rfl
        exact ⟨rest', _, _, .more hbatch hlast hloop⟩

end Stable

end Lib.Batches
