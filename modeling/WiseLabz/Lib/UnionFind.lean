/-
**Union-find with path compression.**

Each element of a forest points at its parent, and a root at itself.  Looking up the root of an
element makes every element on the way point at it, which changes no root, and joining two elements
makes the root of one point at the root of the other.  There are no ranks, so the chains may be
long, but none is longer than the number of elements.

Main definitions:

* `Lib.Climbs` — the chain of an element ends at a root after so many steps;
* `Lib.rootFrom` — the lookup, with compression;
* `Lib.LinkForest` — **a forest**: parents whose chains all end;
* `Lib.LinkForest.rep`, `Lib.LinkForest.find`, `Lib.LinkForest.join` — the root of an element, the
  lookup and the join.

Main results:

* `Lib.LinkForest.find_rep` — a lookup changes no root;
* `Lib.LinkForest.rep_join` — the roots after a join;
* `Lib.LinkForest.rep_joinAll_eq` — **after some joins two elements have one root exactly when the
  least equivalence of the joined pairs relates them**.
-/

import Mathlib.Data.Fintype.Card
import Mathlib.Data.List.Basic
import Mathlib.Logic.Function.Basic
import Mathlib.Logic.Function.Iterate
import Mathlib.Logic.Relation
import Mathlib.Order.Nat

set_option relaxedAutoImplicit false
set_option autoImplicit false

namespace Lib

universe u

variable {α : Type u}

/-! ### Chains -/

/-- The chain of parents from `a` ends at the root `r` after `n` steps. -/
inductive Climbs (p : α → α) : ℕ → α → α → Prop
  | root {a : α} (h : p a = a) : Climbs p 0 a a
  | up {n : ℕ} {a r : α} (h : p a ≠ a) (t : Climbs p n (p a) r) : Climbs p (n + 1) a r

namespace Climbs

variable {p : α → α} {n m : ℕ} {a b r s : α}

theorem isRoot (h : Climbs p n a r) : p r = r := by
  induction h with
  | root h => exact h
  | up _ _ ih => exact ih

theorem unique (h : Climbs p n a r) (h' : Climbs p m a s) : n = m ∧ r = s := by
  induction h generalizing m with
  | root hroot =>
      cases h' with
      | root _ => exact ⟨rfl, rfl⟩
      | up hne _ => exact (hne hroot).elim
  | up hne _ ih =>
      cases h' with
      | root hroot => exact (hne hroot).elim
      | up _ t' =>
          obtain ⟨hn, hr⟩ := ih t'
          exact ⟨congrArg (· + 1) hn, hr⟩

/-- The chain of an ancestor is what is left of the chain. -/
theorem iterate (h : Climbs p n a r) {k : ℕ} (hk : k ≤ n) : Climbs p (n - k) (p^[k] a) r := by
  induction k generalizing n a with
  | zero => exact h
  | succ k ih =>
      cases h with
      | root _ => omega
      | up _ t =>
          rw [Nat.add_sub_add_right]
          exact ih t (by omega)

/-- **A chain visits no element twice**, so it has fewer steps than there are elements. -/
theorem lt_card [Fintype α] (h : Climbs p n a r) : n < Fintype.card α := by
  have hinj : Function.Injective fun k : Fin (n + 1) => p^[k] a := by
    intro i j hij
    have hi := h.iterate (Nat.le_of_lt_succ i.isLt)
    have hj := h.iterate (Nat.le_of_lt_succ j.isLt)
    have hij : p^[(i : ℕ)] a = p^[(j : ℕ)] a := hij
    rw [hij] at hi
    obtain ⟨hsteps, -⟩ := hi.unique hj
    have hi' := i.isLt
    have hj' := j.isLt
    exact Fin.ext (by omega)
  have hcard := Fintype.card_le_of_injective _ hinj
  rw [Fintype.card_fin] at hcard
  omega

variable [DecidableEq α]

/-- **Compression changes no root**: an element may point at its root directly. -/
theorem compress (h : Climbs p n a r) (hb : Climbs p m b s) :
    ∃ k, Climbs (Function.update p a r) k b s := by
  induction hb with
  | @root b hroot =>
      refine ⟨0, .root ?_⟩
      by_cases hba : b = a
      · subst hba
        have hr := (h.unique (.root hroot)).2
        rw [Function.update_self, hr]
      · rw [Function.update_of_ne hba, hroot]
  | @up m b s hne t ih =>
      obtain ⟨k, hk⟩ := ih
      by_cases hba : b = a
      · subst hba
        have hs : r = s := (h.unique (.up hne t)).2
        subst hs
        have hrb : r ≠ b := by
          rintro rfl
          exact hne h.isRoot
        have hroot : Function.update p b r r = r := by rw [Function.update_of_ne hrb, h.isRoot]
        refine ⟨1, .up ?_ ?_⟩
        · rwa [Function.update_self]
        · rw [Function.update_self]
          exact .root hroot
      · refine ⟨k + 1, .up ?_ ?_⟩
        · rwa [Function.update_of_ne hba]
        · rwa [Function.update_of_ne hba]

/-- **Linking the root `y` to the root `x`**: what had the root `y` gets the root `x`. -/
theorem link {x y : α} (hx : p x = x) (hy : p y = y) (hxy : x ≠ y) (hb : Climbs p m b s) :
    ∃ k, Climbs (Function.update p y x) k b (if s = y then x else s) := by
  have htop : Climbs (Function.update p y x) 0 x x :=
    .root (by rw [Function.update_of_ne hxy, hx])
  induction hb with
  | @root b hroot =>
      by_cases hby : b = y
      · subst hby
        rw [if_pos rfl]
        refine ⟨1, .up ?_ ?_⟩
        · rwa [Function.update_self]
        · rwa [Function.update_self]
      · rw [if_neg hby]
        exact ⟨0, .root (by rw [Function.update_of_ne hby, hroot])⟩
  | @up m b s hne t ih =>
      obtain ⟨k, hk⟩ := ih
      have hby : b ≠ y := by
        rintro rfl
        exact hne hy
      refine ⟨k + 1, .up ?_ ?_⟩
      · rwa [Function.update_of_ne hby]
      · rwa [Function.update_of_ne hby]

end Climbs

/-! ### Looking up a root -/

variable [DecidableEq α]

/-- The root of `a`, and the parents after the lookup: everything on the way points at the root. -/
def rootFrom : ℕ → (α → α) → α → (α → α) × α
  | 0, p, a => (p, a)
  | fuel + 1, p, a =>
      if p a = a then (p, a)
      else
        let (p', r) := rootFrom fuel p (p a)
        (Function.update p' a r, r)

/-- **The lookup finds the root** and changes no root. -/
theorem rootFrom_spec {fuel : ℕ} {p : α → α} {n : ℕ} {a r : α} (h : Climbs p n a r)
    (hfuel : n ≤ fuel) :
    (rootFrom fuel p a).2 = r ∧
      ∀ m b s, Climbs p m b s → ∃ k, Climbs (rootFrom fuel p a).1 k b s := by
  induction h generalizing fuel with
  | @root a hroot =>
      have hstay : rootFrom fuel p a = (p, a) := by
        cases fuel with
        | zero => rfl
        | succ fuel => rw [rootFrom, if_pos hroot]
      rw [hstay]
      exact ⟨rfl, fun m b s hb => ⟨m, hb⟩⟩
  | @up n a r hne t ih =>
      obtain ⟨fuel, rfl⟩ : ∃ k, fuel = k + 1 := ⟨fuel - 1, by omega⟩
      have hle : n ≤ fuel := by omega
      obtain ⟨hr, hkeep⟩ := ih hle
      have hstep : rootFrom (fuel + 1) p a =
          (Function.update (rootFrom fuel p (p a)).1 a r, r) := by
        rw [rootFrom, if_neg hne, ← hr]
      rw [hstep]
      refine ⟨rfl, ?_⟩
      intro m b s hb
      obtain ⟨k, hk⟩ := hkeep _ _ _ hb
      obtain ⟨l, hl⟩ := hkeep _ _ _ (.up hne t)
      exact hl.compress hk

/-! ### Forests -/

/-- **A forest**: the chain of each element ends. -/
structure LinkForest (α : Type u) where
  parent : α → α
  climbs : ∀ a, ∃ n r, Climbs parent n a r

namespace LinkForest

/-- Every element its own root. -/
def singletons (α : Type u) : LinkForest α where
  parent := id
  climbs a := ⟨0, a, .root rfl⟩

variable [Fintype α]

/-- The root of an element. -/
def rep (f : LinkForest α) (a : α) : α := (rootFrom (Fintype.card α) f.parent a).2

theorem climbs_rep (f : LinkForest α) (a : α) : ∃ n, Climbs f.parent n a (f.rep a) := by
  obtain ⟨n, r, h⟩ := f.climbs a
  have hr : f.rep a = r := (rootFrom_spec h h.lt_card.le).1
  exact ⟨n, hr.symm ▸ h⟩

theorem rep_eq {f : LinkForest α} {a r : α} {n : ℕ} (h : Climbs f.parent n a r) : f.rep a = r := by
  obtain ⟨m, hm⟩ := f.climbs_rep a
  exact (hm.unique h).2

theorem parent_rep (f : LinkForest α) (a : α) : f.parent (f.rep a) = f.rep a := by
  obtain ⟨_, h⟩ := f.climbs_rep a
  exact h.isRoot

@[simp] theorem rep_singletons (a : α) : (singletons α).rep a = a := rep_eq (.root rfl)

/-- What a lookup leaves. -/
theorem find_climbs (f : LinkForest α) (a b : α) :
    ∃ n, Climbs (rootFrom (Fintype.card α) f.parent a).1 n b (f.rep b) := by
  obtain ⟨n, ha⟩ := f.climbs_rep a
  obtain ⟨m, hb⟩ := f.climbs_rep b
  exact (rootFrom_spec ha ha.lt_card.le).2 m b _ hb

/-- The lookup. -/
def find (f : LinkForest α) (a : α) : LinkForest α × α :=
  (⟨(rootFrom (Fintype.card α) f.parent a).1, fun b =>
    (f.find_climbs a b).imp fun _ h => ⟨f.rep b, h⟩⟩, f.rep a)

/-- **A lookup changes no root.** -/
@[simp] theorem find_rep (f : LinkForest α) (a b : α) : (f.find a).1.rep b = f.rep b := by
  obtain ⟨_, h⟩ := f.find_climbs a b
  exact rep_eq h

@[simp] theorem find_snd (f : LinkForest α) (a : α) : (f.find a).2 = f.rep a := rfl

theorem link_climbs (f : LinkForest α) {a b : α} (h : f.rep a ≠ f.rep b) (c : α) :
    ∃ n, Climbs (Function.update f.parent (f.rep b) (f.rep a)) n c
      (if f.rep c = f.rep b then f.rep a else f.rep c) := by
  obtain ⟨_, hc⟩ := f.climbs_rep c
  exact hc.link (f.parent_rep a) (f.parent_rep b) h

/-- The root of the second points at the root of the first. -/
def link (f : LinkForest α) (a b : α) (h : f.rep a ≠ f.rep b) : LinkForest α where
  parent := Function.update f.parent (f.rep b) (f.rep a)
  climbs c := (f.link_climbs h c).imp fun _ h => ⟨_, h⟩

/-- Two elements are joined: both roots are looked up, and linked if they differ. -/
def join (f : LinkForest α) (a b : α) : LinkForest α :=
  let f := ((f.find a).1.find b).1
  if h : f.rep a = f.rep b then f else f.link a b h

/-- **The roots after a join.** -/
theorem rep_join (f : LinkForest α) (a b c : α) :
    (f.join a b).rep c = if f.rep c = f.rep b then f.rep a else f.rep c := by
  rw [join]
  split
  · next h =>
      simp only [find_rep] at h ⊢
      split
      · next hc => rw [hc, h]
      · rfl
  · next h =>
      obtain ⟨_, hc⟩ := ((f.find a).1.find b).1.link_climbs h c
      have hrep := rep_eq (f := ((f.find a).1.find b).1.link a b h) hc
      simpa only [find_rep] using hrep

/-- Joins, one after the other. -/
def joinAll (f : LinkForest α) (pairs : List (α × α)) : LinkForest α :=
  pairs.foldl (fun f ab => f.join ab.1 ab.2) f

/-- **Two elements have one root exactly when the joined pairs relate them.** -/
theorem rep_joinAll_eq (pairs : List (α × α)) (c d : α) :
    ((singletons α).joinAll pairs).rep c = ((singletons α).joinAll pairs).rep d ↔
      Relation.EqvGen (fun a b => (a, b) ∈ pairs) c d := by
  induction pairs using List.reverseRecOn generalizing c d with
  | nil =>
      rw [joinAll, List.foldl_nil, rep_singletons, rep_singletons]
      constructor
      · rintro rfl
        exact .refl _
      · intro h
        induction h with
        | rel _ _ h => exact absurd h List.not_mem_nil
        | refl _ => rfl
        | symm _ _ _ ih => exact ih.symm
        | trans _ _ _ _ _ ih ih' => exact ih.trans ih'
  | append_singleton pairs xy ih =>
      obtain ⟨x, y⟩ := xy
      have hmono : ∀ {a b}, Relation.EqvGen (fun a b => (a, b) ∈ pairs) a b →
          Relation.EqvGen (fun a b => (a, b) ∈ pairs ++ [(x, y)]) a b :=
        fun h => h.mono fun _ _ hab => List.mem_append_left _ hab
      have hxy : Relation.EqvGen (fun a b => (a, b) ∈ pairs ++ [(x, y)]) x y :=
        .rel _ _ (by simp)
      have hrep : ∀ a, ((singletons α).joinAll (pairs ++ [(x, y)])).rep a =
          if ((singletons α).joinAll pairs).rep a = ((singletons α).joinAll pairs).rep y
          then ((singletons α).joinAll pairs).rep x else ((singletons α).joinAll pairs).rep a := by
        intro a
        rw [joinAll, List.foldl_append]
        exact rep_join _ x y a
      constructor
      · intro h
        rw [hrep, hrep] at h
        split at h
        · next hc =>
            split at h
            · next hd => exact hmono ((ih c d).1 (hc.trans hd.symm))
            · have hcy := hmono ((ih c y).1 hc)
              have hxd := hmono ((ih x d).1 h)
              exact hcy.trans _ _ _ (.trans _ _ _ (.symm _ _ hxy) hxd)
        · split at h
          · next hd =>
              have hcx := hmono ((ih c x).1 h)
              have hdy := hmono ((ih d y).1 hd)
              exact hcx.trans _ _ _ (.trans _ _ _ hxy (.symm _ _ hdy))
          · exact hmono ((ih c d).1 h)
      · intro h
        induction h with
        | rel a b hab =>
            rcases List.mem_append.1 hab with hab | hab
            · rw [hrep, hrep, (ih a b).2 (.rel _ _ hab)]
            · obtain ⟨rfl, rfl⟩ : a = x ∧ b = y := by simpa using hab
              rw [hrep, hrep, if_pos rfl, ite_self]
        | refl _ => rfl
        | symm _ _ _ ih => exact ih.symm
        | trans _ _ _ _ _ ih ih' => exact ih.trans ih'

end LinkForest

end Lib
