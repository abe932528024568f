/-
**Pages behind a cursor.**

A query tells rows by pages, those with the greatest keys first: a request gives the key of the last
row that it was told, and a page holds the next rows behind that key.  The rows may change between
two requests.  As the keys are ordered, what follows such cursors is told nothing twice, and misses
nothing that is there all the time.

Main definitions:

* `Lib.Keyset.page` — a page behind a cursor, and whether there is more;
* `Lib.Keyset.follow` — what a client is told that follows the cursors.

Main results:

* `Lib.Keyset.follow_spec` — **in order, nothing twice, and nothing missed**;
* `Lib.Keyset.follow_ends` — **it comes to an end** over rows that stay.
-/

import Mathlib.Data.List.Sort
import Mathlib.Tactic.Linarith
import Mathlib.Order.Defs.Unbundled
import WiseLabz.Lib.Sorting

set_option relaxedAutoImplicit false
set_option autoImplicit false

namespace Lib.Keyset

universe u v

variable {α : Type u} {κ : Type v} (lt : κ → κ → Prop) [DecidableRel lt] (key : α → κ)

/-! ### Pages -/

/-- The order of the rows: not before a row with a greater key. -/
def NotBefore (a b : α) : Prop := ¬ lt (key a) (key b)

instance : DecidableRel (NotBefore lt key) := fun a b =>
  inferInstanceAs (Decidable (¬ lt (key a) (key b)))

/-- Without a cursor all rows are behind it. -/
def behind : Option κ → α → Bool
  | none, _ => true
  | some k, a => decide (lt (key a) k)

/-- The rows behind the cursor, in order. -/
def found (rows : List α) (cursor : Option κ) : List α :=
  (rows.filter (behind lt key cursor)).insertionSort (NotBefore lt key)

/-- **A page**: one row more than the limit is asked for, to tell whether there is more. -/
def page (rows : List α) (cursor : Option κ) (limit : ℕ) : List α × Bool :=
  let items := (found lt key rows cursor).take (limit + 1)
  if limit < items.length then (items.take limit, true) else (items, false)

/-- **What a client is told** by one request after the other, each on the rows that are there by
then, and whether it came to an end. -/
def follow (limit : ℕ) : Option κ → List (List α) → List α × Bool
  | _, [] => ([], false)
  | cursor, rows :: later =>
      let (items, more) := page lt key rows cursor limit
      if more then
        let (rest, ended) := follow limit (items.getLast?.map key) later
        (items ++ rest, ended)
      else (items, true)

/-! ### One page -/

section Page

variable {lt key} {rows : List α} {cursor : Option κ} {limit : ℕ}

theorem page_eq (rows : List α) (cursor : Option κ) (limit : ℕ) :
    page lt key rows cursor limit =
      ((found lt key rows cursor).take limit,
        decide (limit < (found lt key rows cursor).length)) := by
  rw [page]
  rw [List.length_take, List.take_take]
  by_cases hmore : limit < (found lt key rows cursor).length
  · rw [if_pos (by omega), decide_eq_true hmore, Nat.min_eq_left (Nat.le_succ limit)]
  · rw [if_neg (by omega), decide_eq_false hmore, List.take_of_length_le (by omega),
      List.take_of_length_le (by omega)]

theorem mem_found {a : α} :
    a ∈ found lt key rows cursor ↔ a ∈ rows ∧ behind lt key cursor a = true := by
  rw [found, List.mem_insertionSort, List.mem_filter]

variable [IsStrictTotalOrder κ lt]

instance : Std.Total (NotBefore lt key) where
  total a b := by
    by_cases h : lt (key a) (key b)
    · exact .inr fun h' => irrefl_of lt (key a) (trans_of lt h h')
    · exact .inl h

instance : IsTrans α (NotBefore lt key) where
  trans a b c hab hbc hac := by
    rcases trichotomous_of lt (key b) (key c) with h | h | h
    · exact hbc h
    · exact hab (h ▸ hac)
    · exact hab (trans_of lt hac h)

/-- **The rows behind the cursor, the greatest keys first.** -/
theorem found_sorted (hkeys : (rows.map key).Nodup) (cursor : Option κ) :
    (found lt key rows cursor).Pairwise fun a b => lt (key b) (key a) := by
  have hdistinct : ((found lt key rows cursor).map key).Nodup := by
    refine ((List.perm_insertionSort _ _).map key).nodup_iff.2 ?_
    exact hkeys.sublist (List.filter_sublist.map key)
  have hsorted : (found lt key rows cursor).Pairwise (NotBefore lt key) :=
    List.pairwise_insertionSort _ _
  refine (hsorted.and (List.pairwise_map.1 hdistinct)).imp fun {a b} h => ?_
  rcases trichotomous_of lt (key a) (key b) with hlt | heq | hgt
  · exact absurd hlt h.1
  · exact absurd heq h.2
  · exact hgt

/-- **The last row of a page** with more behind it: it divides the rows. -/
theorem page_last (hlimit : 0 < limit) (hkeys : (rows.map key).Nodup)
    (hmore : limit < (found lt key rows cursor).length) :
    ∃ init last, (found lt key rows cursor).take limit = init ++ [last] ∧
      (∀ a ∈ init, lt (key last) (key a)) ∧
      ∀ a ∈ (found lt key rows cursor).drop limit, lt (key a) (key last) := by
  have hne : (found lt key rows cursor).take limit ≠ [] := by
    rw [Ne, ← List.length_eq_zero_iff, List.length_take]
    omega
  obtain ⟨init, last, hlast⟩ := (List.eq_nil_or_concat' _).resolve_left hne
  have hsorted : (found lt key rows cursor).Pairwise fun a b => lt (key b) (key a) :=
    found_sorted hkeys cursor
  rw [← List.take_append_drop limit (found lt key rows cursor), hlast] at hsorted
  obtain ⟨hpage, -, hcross⟩ := List.pairwise_append.1 hsorted
  refine ⟨init, last, hlast, fun a ha => ?_, fun a ha => ?_⟩
  · exact (List.pairwise_append.1 hpage).2.2 a ha last (List.mem_singleton_self _)
  · exact hcross last (List.mem_append_right _ (List.mem_singleton_self _)) a ha

end Page

/-! ### One page after the other -/

section Follow

variable {lt key} [IsStrictTotalOrder κ lt] {limit : ℕ}

/-- What a client may rely on: it is told rows that are there, in order, and when it has come to an
end, every key behind the cursor that is there all the time. -/
structure Told (lt : κ → κ → Prop) [DecidableRel lt] (key : α → κ) (cursor : Option κ)
    (tables : List (List α)) (items : List α) (ended : Bool) : Prop where
  sorted : items.Pairwise fun a b => lt (key b) (key a)
  behind : ∀ a ∈ items, behind lt key cursor a = true
  rows : ∀ a ∈ items, ∃ rows ∈ tables, a ∈ rows
  all : ended = true → ∀ k, (∀ rows ∈ tables, ∃ a ∈ rows, key a = k ∧
    Keyset.behind lt key cursor a = true) → ∃ a ∈ items, key a = k

/-- A row with a smaller key than one behind the cursor is behind it. -/
theorem behind_of_lt {cursor : Option κ} {a b : α} (h : behind lt key cursor b = true)
    (hlt : lt (key a) (key b)) : behind lt key cursor a = true := by
  cases cursor with
  | none => rfl
  | some k => exact decide_eq_true (trans_of lt hlt (of_decide_eq_true h))

/-- **In order, nothing twice, and nothing missed.** -/
theorem follow_spec (hlimit : 0 < limit) {tables : List (List α)}
    (hkeys : ∀ rows ∈ tables, (rows.map key).Nodup) (cursor : Option κ) :
    Told lt key cursor tables (follow lt key limit cursor tables).1
      (follow lt key limit cursor tables).2 := by
  induction tables generalizing cursor with
  | nil => exact ⟨.nil, by simp [follow], by simp [follow], by simp [follow]⟩
  | cons rows later ih =>
      obtain ⟨hrows, hlater⟩ := List.forall_mem_cons.1 hkeys
      rw [follow, page_eq]
      have hsorted : (found lt key rows cursor).Pairwise fun a b => lt (key b) (key a) :=
        found_sorted hrows cursor
      by_cases hmore : limit < (found lt key rows cursor).length
      · obtain ⟨init, last, hlast, hinit, hdrop⟩ := page_last hlimit hrows hmore
        have hmem : ∀ a ∈ init ++ [last], a ∈ rows ∧ behind lt key cursor a = true := fun a ha =>
          mem_found.1 (List.mem_of_mem_take (hlast ▸ ha))
        have hbehind := (hmem last (by simp)).2
        have hnext := ih hlater (some (key last))
        simp only [hlast, decide_eq_true hmore, if_true, List.getLast?_append_cons,
          List.getLast?_singleton, Option.map_some]
        have hrest : ∀ b ∈ (follow lt key limit (some (key last)) later).1,
            lt (key b) (key last) := fun b hb => of_decide_eq_true (hnext.behind b hb)
        refine ⟨?_, ?_, ?_, ?_⟩
        · refine List.pairwise_append.2 ⟨?_, hnext.sorted, fun a ha b hb => ?_⟩
          · exact hlast ▸ hsorted.sublist (List.take_sublist _ _)
          · rcases List.mem_append.1 ha with ha | ha
            · exact trans_of lt (hrest b hb) (hinit a ha)
            · rw [List.mem_singleton.1 ha]
              exact hrest b hb
        · intro a ha
          rcases List.mem_append.1 ha with ha | ha
          · exact (hmem a ha).2
          · exact behind_of_lt hbehind (hrest a ha)
        · intro a ha
          rcases List.mem_append.1 ha with ha | ha
          · exact ⟨rows, List.mem_cons_self, (hmem a ha).1⟩
          · obtain ⟨rows', hrows', ha'⟩ := hnext.rows a ha
            exact ⟨rows', List.mem_cons_of_mem _ hrows', ha'⟩
        · intro hended k hk
          obtain ⟨a, ha, rfl, hcursor⟩ := hk rows List.mem_cons_self
          have hfound := mem_found.2 ⟨ha, hcursor⟩
          rw [← List.take_append_drop limit (found lt key rows cursor), hlast] at hfound
          rcases List.mem_append.1 hfound with hpage | hbeyond
          · exact ⟨a, List.mem_append_left _ hpage, rfl⟩
          -- The row is behind the page, and so is its key in every table after.
          · have hlt := hdrop a hbeyond
            obtain ⟨b, hb, hkey⟩ := hnext.all hended (key a) fun rows' hrows' => by
              obtain ⟨b, hb, hkey, -⟩ := hk rows' (List.mem_cons_of_mem _ hrows')
              exact ⟨b, hb, hkey, decide_eq_true (hkey ▸ hlt)⟩
            exact ⟨b, List.mem_append_right _ hb, hkey⟩
      · have htake : (found lt key rows cursor).take limit = found lt key rows cursor :=
          List.take_of_length_le (Nat.not_lt.1 hmore)
        simp only [htake, decide_eq_false hmore, Bool.false_eq_true, if_false]
        refine ⟨hsorted, fun a ha => (mem_found.1 ha).2, fun a ha => ?_, fun _ k hk => ?_⟩
        · exact ⟨rows, List.mem_cons_self, (mem_found.1 ha).1⟩
        · obtain ⟨a, ha, hkey, hcursor⟩ := hk rows List.mem_cons_self
          exact ⟨a, mem_found.2 ⟨ha, hcursor⟩, hkey⟩

/-- The rows behind the last one of a page. -/
theorem found_last {rows : List α} {cursor : Option κ} (hlimit : 0 < limit)
    (hkeys : (rows.map key).Nodup) {init : List α} {last : α}
    (hmore : limit < (found lt key rows cursor).length)
    (hlast : (found lt key rows cursor).take limit = init ++ [last]) :
    found lt key rows (some (key last)) = (found lt key rows cursor).drop limit := by
  obtain ⟨init', last', hlast', hinit, hdrop⟩ := page_last hlimit hkeys hmore
  obtain ⟨rfl, hsame⟩ := List.append_inj' (hlast'.symm.trans hlast) rfl
  obtain rfl := (List.cons.inj hsame).1
  have hmem : last' ∈ (found lt key rows cursor).take limit := by
    rw [hlast]
    exact List.mem_append_right _ (List.mem_singleton_self _)
  have hbehind := (mem_found.1 (List.mem_of_mem_take hmem)).2
  have hfilter : found lt key rows (some (key last')) =
      (found lt key rows cursor).filter (behind lt key (some (key last'))) := by
    rw [found, found, filter_insertionSort, filter_insertionSort, List.filter_filter]
    refine List.filter_congr fun a _ => ?_
    by_cases ha : behind lt key (some (key last')) a = true
    · rw [ha, behind_of_lt hbehind (of_decide_eq_true ha)]
      rfl
    · rw [Bool.eq_false_iff.2 ha]
      rfl
  rw [hfilter]
  nth_rewrite 1 [← List.take_append_drop limit (found lt key rows cursor)]
  have hbeyond : ∀ a ∈ (found lt key rows cursor).drop limit,
      behind lt key (some (key last')) a = true := fun a ha => decide_eq_true (hdrop a ha)
  rw [List.filter_append, hlast, List.filter_eq_self.2 hbeyond, List.filter_eq_nil_iff.2,
    List.nil_append]
  intro a ha h
  have hlt : lt (key a) (key last') := of_decide_eq_true h
  rcases List.mem_append.1 ha with ha | ha
  · exact irrefl_of lt _ (trans_of lt hlt (hinit a ha))
  · exact irrefl_of lt (key last') (List.mem_singleton.1 ha ▸ hlt)

/-- **It comes to an end** over rows that stay, with all of them told, in as many requests as there
are full pages of them. -/
theorem follow_ends (hlimit : 0 < limit) {rows : List α} (hkeys : (rows.map key).Nodup)
    {cursor : Option κ} {n : ℕ} (hn : 0 < n)
    (hpages : (found lt key rows cursor).length ≤ limit * n) :
    follow lt key limit cursor (List.replicate n rows) = (found lt key rows cursor, true) := by
  induction n generalizing cursor with
  | zero => exact absurd hn (Nat.lt_irrefl 0)
  | succ n ih =>
      rw [List.replicate_succ, follow, page_eq]
      by_cases hmore : limit < (found lt key rows cursor).length
      · obtain ⟨init, last, hlast, -, -⟩ := page_last hlimit hkeys hmore
        have hdrop := found_last hlimit hkeys hmore hlast
        have hpos : 0 < n := by
          refine Nat.pos_of_ne_zero fun hzero => ?_
          rw [hzero] at hpages
          omega
        have hrest : (found lt key rows (some (key last))).length ≤ limit * n := by
          rw [hdrop, List.length_drop]
          rw [Nat.mul_succ] at hpages
          omega
        simp only [hlast, decide_eq_true hmore, if_true, List.getLast?_append_cons,
          List.getLast?_singleton, Option.map_some, ih hpos hrest, hdrop]
        rw [← hlast, List.take_append_drop]
      · simp only [List.take_of_length_le (Nat.not_lt.1 hmore), decide_eq_false hmore,
          Bool.false_eq_true, if_false]

end Follow

end Lib.Keyset
