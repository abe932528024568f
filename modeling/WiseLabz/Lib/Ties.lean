/-
**Rows in an order that leaves ties open.**

A query that sorts its rows by a key says nothing of the order of rows with the same key, and it may
return them in another order the next time.  What does not tell such rows apart is the same in every
order.  Pages that are read by queries of their own hold each row once if no two rows with one key
fall on two pages, and only then.

Main definitions:

* `Lib.Returned` — an order in which a query may return its rows;
* `Lib.pages` — the pages, each cut from the order of its own query;
* `Lib.TiesOnOnePage` — no boundary of a page parts rows with one key.

Main results:

* `Lib.Returned.map_eq` — **what every order agrees on**;
* `Lib.exists_tied` — two rows with one key come in either order;
* `Lib.pages_perm` — the pages hold the rows, each once;
* `Lib.exists_repeated` — else some orders repeat a row.
-/

import Mathlib.Data.List.Perm.Basic
import Mathlib.Data.List.Sort

set_option relaxedAutoImplicit false
set_option autoImplicit false

namespace Lib

universe u v w

variable {α : Type u} {κ : Type v} {β : Type w} {le : κ → κ → Prop} {key : α → κ}

/-! ### Orders -/

variable (le key) in
/-- **An order in which a query that sorts by the key may return its rows.** -/
structure Returned (rows order : List α) : Prop where
  perm : order.Perm rows
  sorted : order.Pairwise fun a b => le (key a) (key b)

theorem returned_insertionSort [DecidableRel le] [Std.Total le] [IsTrans κ le] (rows : List α) :
    Returned le key rows (rows.insertionSort fun a b => le (key a) (key b)) := by
  have : Std.Total fun a b : α => le (key a) (key b) := ⟨fun a b => total_of le (key a) (key b)⟩
  have : IsTrans α fun a b => le (key a) (key b) := ⟨fun _ _ _ => trans_of le⟩
  exact ⟨List.perm_insertionSort _ rows, List.pairwise_insertionSort _ rows⟩

variable {rows order order' : List α}

theorem Returned.filter (h : Returned le key rows order) (p : α → Bool) :
    Returned le key (rows.filter p) (order.filter p) :=
  ⟨h.perm.filter p, h.sorted.filter p⟩

theorem Returned.drop (h : Returned le key rows order) (h' : Returned le key rows order') {n : ℕ}
    (hperm : (order'.drop n).Perm (order.drop n)) :
    Returned le key (order.drop n) (order.drop n) ∧ Returned le key (order.drop n) (order'.drop n) :=
  ⟨⟨List.Perm.refl _, h.sorted.sublist (List.drop_sublist _ _)⟩,
    ⟨hperm, h'.sorted.sublist (List.drop_sublist _ _)⟩⟩

section Keys

variable [Std.Antisymm le]

/-- **What tells two rows apart only if their keys differ** comes in one order. -/
theorem Returned.map_eq {f : α → β} (hf : ∀ a ∈ rows, ∀ b ∈ rows, f a = f b ↔ key a = key b)
    (h : Returned le key rows order) (h' : Returned le key rows order') :
    order.map f = order'.map f := by
  -- the images are sorted by the keys of the rows they come from
  have hsorted : ∀ {o : List α}, Returned le key rows o → (o.map f).Pairwise fun x y =>
      ∃ a ∈ rows, ∃ b ∈ rows, f a = x ∧ f b = y ∧ le (key a) (key b) := by
    intro o ho
    refine List.pairwise_map.2 (ho.sorted.imp_of_mem fun {a b} ha hb hle => ?_)
    exact ⟨a, ho.perm.mem_iff.1 ha, b, ho.perm.mem_iff.1 hb, rfl, rfl, hle⟩
  refine List.Perm.eq_of_pairwise ?_ (hsorted h) (hsorted h') ((h.perm.trans h'.perm.symm).map f)
  rintro x y - - ⟨a, ha, b, hb, rfl, rfl, hab⟩ ⟨b', hb', a', ha', hfb, hfa, hba⟩
  rw [(hf b' hb' b hb).1 hfb, (hf a' ha' a ha).1 hfa] at hba
  exact (hf a ha b hb).2 (antisymm_of le hab hba)

theorem Returned.keys_eq (h : Returned le key rows order) (h' : Returned le key rows order') :
    order.map key = order'.map key :=
  h.map_eq (fun _ _ _ _ => Iff.rfl) h'

/-- Where no two rows with one key are parted, every order is cut into the same rows. -/
theorem Returned.cut (h : Returned le key rows order) (h' : Returned le key rows order') {n : ℕ}
    (hties : ∀ a ∈ order.take n, ∀ b ∈ order.drop n, key a ≠ key b) :
    (order'.take n).Perm (order.take n) ∧ (order'.drop n).Perm (order.drop n) := by
  classical
  have hkeys := h.keys_eq h'
  have htake : (order'.take n).map key = (order.take n).map key := by
    rw [List.map_take, List.map_take, hkeys]
  have hdrop : (order'.drop n).map key = (order.drop n).map key := by
    rw [List.map_drop, List.map_drop, hkeys]
  -- the rows up to the cut are those with their keys, in either order
  let p : α → Bool := fun b => decide (key b ∈ (order.take n).map key)
  have hsplit : ∀ o : List α, (∀ a ∈ o.take n, p a = true) → (∀ b ∈ o.drop n, p b = false) →
      o.filter p = o.take n ∧ o.filter (fun b => !p b) = o.drop n := by
    intro o hbefore hafter
    constructor
    · rw [← List.take_append_drop n o, List.filter_append, List.filter_eq_self.2 hbefore,
        List.filter_eq_nil_iff.2 fun b hb => by simp [hafter b hb], List.append_nil,
        List.take_append_drop]
    · rw [← List.take_append_drop n o, List.filter_append, List.take_append_drop,
        List.filter_eq_nil_iff.2 fun a ha => by simp [hbefore a ha],
        List.filter_eq_self.2 fun b hb => by simp [hafter b hb], List.nil_append]
  have hafter : ∀ b ∈ order.drop n, p b = false := by
    intro b hb
    refine decide_eq_false fun hmem => ?_
    obtain ⟨a, ha, heq⟩ := List.mem_map.1 hmem
    exact hties a ha b hb heq
  obtain ⟨htaken, hdropped⟩ := hsplit order
    (fun a ha => decide_eq_true (List.mem_map_of_mem ha)) hafter
  obtain ⟨htaken', hdropped'⟩ := hsplit order'
    (fun a ha => decide_eq_true (htake ▸ List.mem_map_of_mem ha)) (fun b hb => by
      obtain ⟨c, hc, heq⟩ := List.mem_map.1 (hdrop ▸ List.mem_map_of_mem hb)
      rw [← hafter c hc]
      exact congrArg (fun x => decide (x ∈ (order.take n).map key)) heq.symm)
  have hperm := h'.perm.trans h.perm.symm
  exact ⟨htaken ▸ htaken' ▸ hperm.filter p, hdropped ▸ hdropped' ▸ hperm.filter _⟩

end Keys

variable (le key) in
/-- **Two rows with one key** come next to each other in some orders, either one first, and behind
all others with that key. -/
theorem exists_tied [DecidableRel le] [Std.Total le] [IsTrans κ le] {a b : α} (ha : a ∈ rows)
    (hb : b ∈ rows) (hne : a ≠ b) (hkey : key a = key b) :
    ∃ l r, Returned le key rows (l ++ a :: b :: r) ∧ Returned le key rows (l ++ b :: a :: r) ∧
      ∀ c ∈ r, ¬ le (key c) (key a) := by
  classical
  let rest := (rows.erase a).erase b
  have hrows : rows.Perm (a :: b :: rest) := by
    have hmem : b ∈ rows.erase a := (List.mem_erase_of_ne hne.symm).2 hb
    exact (List.perm_cons_erase ha).trans ((List.perm_cons_erase hmem).cons a)
  obtain ⟨l, hl⟩ : ∃ l, Returned le key (rest.filter fun c => le (key c) (key a)) l :=
    ⟨_, returned_insertionSort _⟩
  obtain ⟨r, hr⟩ : ∃ r, Returned le key (rest.filter fun c => ¬ le (key c) (key a)) r :=
    ⟨_, returned_insertionSort _⟩
  have hbefore : ∀ c ∈ l, le (key c) (key a) := fun c hc =>
    of_decide_eq_true (List.mem_filter.1 (hl.perm.mem_iff.1 hc)).2
  have hbehind : ∀ c ∈ r, ¬ le (key c) (key a) := fun c hc =>
    of_decide_eq_true (List.mem_filter.1 (hr.perm.mem_iff.1 hc)).2
  have hafter : ∀ c ∈ r, le (key a) (key c) := fun c hc =>
    (total_of le (key a) (key c)).resolve_right (hbehind c hc)
  have hrest : (l ++ r).Perm rest := by
    refine (hl.perm.append hr.perm).trans ?_
    simpa only [decide_not] using List.filter_append_perm (fun c => decide (le (key c) (key a))) rest
  have hself : le (key a) (key a) := (total_of le _ _).elim id id
  have hreturned : ∀ {x y : α}, key x = key a → key y = key a → (x :: y :: rest).Perm rows →
      Returned le key rows (l ++ x :: y :: r) := by
    intro x y hx hy hperm
    constructor
    · refine List.Perm.trans ?_ hperm
      refine List.perm_middle.trans ((List.perm_middle.trans ?_).cons x)
      exact hrest.cons y
    · have hbounds : ∀ c ∈ x :: y :: r, le (key a) (key c) := by
        intro c hc
        rcases List.mem_cons.1 hc with rfl | hc
        · exact hx ▸ hself
        · rcases List.mem_cons.1 hc with rfl | hc
          · exact hy ▸ hself
          · exact hafter c hc
      refine List.pairwise_append.2 ⟨hl.sorted, ?_, fun c hc d hd =>
        trans_of le (hbefore c hc) (hbounds d hd)⟩
      refine List.pairwise_cons.2 ⟨fun c hc => ?_, List.pairwise_cons.2 ⟨fun c hc => ?_, hr.sorted⟩⟩
      · rw [hx]
        exact hbounds c (List.mem_cons_of_mem x hc)
      · rw [hy]
        exact hafter c hc
  exact ⟨l, r, hreturned rfl hkey.symm hrows.symm,
    hreturned hkey.symm rfl ((List.Perm.swap a b rest).trans hrows.symm), hbehind⟩

/-! ### Pages -/

/-- The first pages, each cut from the order of its own query. -/
def pages (orders : ℕ → List α) (limit n : ℕ) : List α :=
  (List.range n).flatMap fun i => ((orders i).drop (i * limit)).take limit

/-- **No boundary of a page parts rows with one key.** -/
def TiesOnOnePage (key : α → κ) (limit : ℕ) (order : List α) : Prop :=
  ∀ i, ∀ a ∈ order.take (i * limit), ∀ b ∈ order.drop (i * limit), key a ≠ key b

/-- Pages of one order hold its first rows. -/
theorem pages_const (l : List α) (limit n : ℕ) : pages (fun _ => l) limit n = l.take (n * limit) := by
  rw [pages]
  induction n with
  | zero => simp
  | succ n ih => simp [List.range_succ, ih, Nat.succ_mul, List.take_add]

section Pages

variable [Std.Antisymm le] {orders : ℕ → List α} {limit n : ℕ}

/-- **The pages hold the rows, each once**, whatever the orders. -/
theorem pages_perm (h : Returned le key rows order) (hties : TiesOnOnePage key limit order)
    (horders : ∀ i, Returned le key rows (orders i)) (hn : rows.length ≤ n * limit) :
    (pages orders limit n).Perm rows := by
  have hpage : ∀ i, (((orders i).drop (i * limit)).take limit).Perm
      ((order.drop (i * limit)).take limit) := by
    intro i
    obtain ⟨-, hdrop⟩ := h.cut (horders i) (hties i)
    obtain ⟨hrest, hrest'⟩ := h.drop (horders i) hdrop
    refine (hrest.cut hrest' fun a ha b hb => ?_).1
    have hnext := hties (i + 1) a ?_ b ?_
    · exact hnext
    · rw [Nat.succ_mul, List.take_add]
      exact List.mem_append_right _ ha
    · rw [Nat.succ_mul, ← List.drop_drop]
      exact hb
  have hone : (pages orders limit n).Perm (pages (fun _ => order) limit n) :=
    List.Perm.flatMap_left _ fun i _ => hpage i
  refine hone.trans ?_
  rw [pages_const, List.take_of_length_le (h.perm.length_eq.trans_le hn)]
  exact h.perm

omit [Std.Antisymm le] in
/-- **Some orders repeat a row** where a boundary parts rows with one key. -/
theorem exists_repeated (h : Returned le key rows order) (hties : ¬ TiesOnOnePage key limit order)
    (hn : rows.length ≤ n * limit) :
    ∃ orders, (∀ i, Returned le key rows (orders i)) ∧ ¬ (pages orders limit n).Nodup := by
  simp only [TiesOnOnePage, not_forall, not_not] at hties
  obtain ⟨i, a, ha, b, hb, hkey⟩ := hties
  obtain ⟨w, x, htake⟩ := List.append_of_mem ha
  obtain ⟨y, z, hdrop⟩ := List.append_of_mem hb
  have horder : order = w ++ a :: x ++ (y ++ b :: z) := by
    rw [← htake, ← hdrop, List.take_append_drop]
  have hlength : (w ++ b :: x).length = (w ++ a :: x).length := by simp
  have hlength' : (w ++ a :: x).length = i * limit := by
    rw [← htake, List.length_take]
    refine min_eq_left ?_
    by_contra hlt
    rw [List.drop_of_length_le (not_le.1 hlt).le] at hb
    cases hb
  -- the later pages are read after the two rows have changed places
  let order' := w ++ b :: x ++ (y ++ a :: z)
  have hswapped : Returned le key rows order' := by
    constructor
    · refine List.Perm.trans ?_ h.perm
      rw [horder]
      simp only [order', List.append_assoc, List.cons_append]
      refine List.Perm.append_left w ?_
      have hmiddle : (b :: (x ++ y) ++ a :: z).Perm (a :: (b :: (x ++ y) ++ z)) := List.perm_middle
      have hmiddle' : (a :: (x ++ y) ++ b :: z).Perm (b :: (a :: (x ++ y) ++ z)) := List.perm_middle
      simp only [List.cons_append, List.append_assoc] at hmiddle hmiddle'
      exact hmiddle.trans ((List.Perm.swap _ _ _).trans hmiddle'.symm)
    · have hkeys : order'.map key = order.map key := by
        rw [horder]
        simp [order', hkey]
      have hsorted : (order.map key).Pairwise le := List.pairwise_map.2 h.sorted
      exact List.pairwise_map.1 (hkeys ▸ hsorted)
  have hi : i < n := by
    by_contra hle
    have hall : order.length ≤ i * limit :=
      (h.perm.length_eq.trans_le hn).trans (Nat.mul_le_mul_right _ (not_lt.1 hle))
    rw [List.drop_of_length_le hall] at hb
    cases hb
  refine ⟨fun j => if j < i then order else order', fun j => ?_, fun hnodup => ?_⟩
  · dsimp only
    split
    · exact h
    · exact hswapped
  · obtain ⟨m, rfl⟩ := Nat.exists_eq_add_of_lt hi
    rw [pages, Nat.add_assoc, List.range_add, List.flatMap_append] at hnodup
    refine (List.nodup_append.1 hnodup).2.2 a ?_ a ?_ rfl
    · have hfirst : a ∈ pages (fun _ => order) limit i := by
        rw [pages_const]
        exact ha
      obtain ⟨j, hj, hmem⟩ := List.mem_flatMap.1 hfirst
      refine List.mem_flatMap.2 ⟨j, hj, ?_⟩
      rw [if_pos (List.mem_range.1 hj)]
      exact hmem
    · have hrest : a ∈ pages (fun _ => order'.drop (i * limit)) limit (m + 1) := by
        have hall : order'.length ≤ (i + m + 1) * limit := hswapped.perm.length_eq.trans_le hn
        have hrows : (order'.drop (i * limit)).length ≤ (m + 1) * limit := by
          rw [List.length_drop, Nat.sub_le_iff_le_add, ← Nat.add_mul]
          refine hall.trans_eq ?_
          rw [Nat.add_comm (m + 1), Nat.add_assoc]
        rw [pages_const, List.take_of_length_le hrows, ← hlength', ← hlength, List.drop_left]
        simp
      obtain ⟨j, hj, hmem⟩ := List.mem_flatMap.1 hrest
      refine List.mem_flatMap.2 ⟨i + j, List.mem_map_of_mem hj, ?_⟩
      rw [if_neg (Nat.not_lt.2 (Nat.le_add_right i j)), Nat.add_mul, ← List.drop_drop]
      exact hmem

end Pages

end Lib
