/-
**Tables that are rebuilt part by part.**

A table holds derived rows.  Each part of the source derives some rows, and two parts may derive the
same one.  A rebuild of a part deletes the rows that it affects and the rows under the keys it
derives, and inserts what it derives.  If a rebuild derives again whatever it deletes of the other
parts' rows, and parts agree on the rows that they share, then the table does not depend on the
order of the rebuilds, once every part has been rebuilt.

Main definitions:

* `Lib.Rebuild`, `Lib.Rebuild.Coherent` — what parts derive and affect, and when they agree;
* `Lib.Rebuild.machine` — runs of rebuilds.

Main results:

* `Lib.Rebuild.run_kept` — what a run has left of a table, and what it has put there;
* `Lib.Rebuild.mem_run`, `Lib.Rebuild.nodup_run` — **once every part was rebuilt**, the table is what
  the parts derive, one row under each key.
-/

import WiseLabz.Lib.Machine
import Mathlib.Data.List.Nodup

set_option relaxedAutoImplicit false
set_option autoImplicit false

namespace Lib

universe u v w x y

/-- What each part derives and affects; `key` tells which derived rows are the same one, and
`content` is what is compared. -/
structure Rebuild (δ : Type u) (π : Type v) (κ : Type w) (γ : Type x) where
  key : δ → κ
  content : δ → γ
  affected : π → δ → Bool
  derived : π → List δ

namespace Rebuild

variable {δ : Type u} {π : Type v} {κ : Type w} {γ : Type x} {ρ : Type y} [DecidableEq κ]
  {R : Rebuild δ π κ γ} {view : ρ → δ}

/-- Parts agree. -/
structure Coherent (R : Rebuild δ π κ γ) : Prop where
  /-- A part derives one row under a key. -/
  nodup : ∀ p, ((R.derived p).map R.key).Nodup
  /-- What a rebuild deletes of another part's rows, it derives again. -/
  rederived : ∀ p q, ∀ d ∈ R.derived p, R.affected q d = true → R.key d ∈ (R.derived q).map R.key
  agree : ∀ p q, ∀ d ∈ R.derived p, ∀ e ∈ R.derived q, R.key d = R.key e → R.content d = R.content e

/-- A row that a rebuild of `p` keeps. -/
def Kept (R : Rebuild δ π κ γ) (p : π) (d : δ) : Prop :=
  R.affected p d = false ∧ R.key d ∉ (R.derived p).map R.key

instance (p : π) (d : δ) : Decidable (R.Kept p d) :=
  inferInstanceAs (Decidable (_ ∧ _))

/-- **Rebuilds of parts**; `view` leaves out what is not derived. -/
def machine (R : Rebuild δ π κ γ) (view : ρ → δ) (init : List ρ → Prop) :
    Machine (List ρ) π where
  init := init
  step s p t := ∃ rows, rows.map view = R.derived p ∧
    t = (s.filter fun r => R.Kept p (view r)) ++ rows

/-- What is left of a table, and what was put there, after rebuilds of the parts `ps`. -/
structure After (R : Rebuild δ π κ γ) (view : ρ → δ) (s : List ρ) (ps : List π) (t : List ρ) :
    Prop where
  /-- A row was there and all rebuilds keep it, or it is derived. -/
  origin : ∀ r ∈ t, (r ∈ s ∧ ∀ p ∈ ps, R.Kept p (view r)) ∨ ∃ p ∈ ps, view r ∈ R.derived p
  /-- What a part derives is there. -/
  present : ∀ p ∈ ps, ∀ d ∈ R.derived p, ∃ r ∈ t, R.key (view r) = R.key d
  /-- Rows under one key are not derived. -/
  distinct : t.Pairwise fun r r' => R.key (view r) = R.key (view r') →
    ∀ p ∈ ps, R.key (view r) ∉ (R.derived p).map R.key

omit [DecidableEq κ] in
theorem After.nil (s : List ρ) : After R view s [] s where
  origin _ hr := Or.inl ⟨hr, fun _ hp => absurd hp List.not_mem_nil⟩
  present _ hp := absurd hp List.not_mem_nil
  distinct := List.pairwise_of_forall fun _ _ _ _ hp => absurd hp List.not_mem_nil

/-- **One rebuild.** -/
theorem After.step (hR : R.Coherent) {init : List ρ → Prop} {s t u : List ρ} {ps : List π} {q : π}
    (h : After R view s ps t) (hstep : (R.machine view init).step t q u) :
    After R view s (ps ++ [q]) u := by
  obtain ⟨rows, hrows, rfl⟩ := hstep
  have hmem : ∀ p, p ∈ ps ++ [q] ↔ p ∈ ps ∨ p = q := fun p => by simp
  have hnew : ∀ r ∈ rows, view r ∈ R.derived q := fun r hr => hrows ▸ List.mem_map_of_mem hr
  have hkept : ∀ r ∈ t.filter fun r => R.Kept q (view r), r ∈ t ∧ R.Kept q (view r) := by
    intro r hr
    obtain ⟨hr, hkept⟩ := List.mem_filter.1 hr
    exact ⟨hr, of_decide_eq_true hkept⟩
  refine ⟨?_, ?_, ?_⟩
  · intro r hr
    rcases List.mem_append.1 hr with hr | hr
    · obtain ⟨hr, hq⟩ := hkept r hr
      rcases h.origin r hr with ⟨hs, hall⟩ | ⟨p, hp, hderived⟩
      · refine Or.inl ⟨hs, fun p hp => ?_⟩
        rcases (hmem p).1 hp with hp | rfl
        · exact hall p hp
        · exact hq
      · exact Or.inr ⟨p, (hmem p).2 (Or.inl hp), hderived⟩
    · exact Or.inr ⟨q, (hmem q).2 (Or.inr rfl), hnew r hr⟩
  · intro p hp d hd
    -- what `q` derives was just inserted
    have hinserted : ∀ k ∈ (R.derived q).map R.key, ∃ r ∈ (t.filter fun r => R.Kept q (view r)) ++ rows,
        R.key (view r) = k := by
      intro k hk
      rw [← hrows, List.map_map] at hk
      obtain ⟨r, hr, rfl⟩ := List.mem_map.1 hk
      exact ⟨r, List.mem_append_right _ hr, rfl⟩
    rcases (hmem p).1 hp with hp | rfl
    · obtain ⟨r, hr, hkey⟩ := h.present p hp d hd
      by_cases hq : R.key d ∈ (R.derived q).map R.key
      · exact hinserted _ hq
      · -- the row that is there is a derived one, so `q` would derive it if it deleted it
        have hderived : ∃ p' ∈ ps, view r ∈ R.derived p' := by
          rcases h.origin r hr with ⟨-, hall⟩ | hderived
          · exact absurd (List.mem_map.2 ⟨d, hd, hkey.symm⟩) (hall p hp).2
          · exact hderived
        obtain ⟨p', -, hview⟩ := hderived
        have hunaffected : R.affected q (view r) = false := by
          by_contra haffected
          refine hq (hkey ▸ hR.rederived p' q (view r) hview ?_)
          simpa using haffected
        refine ⟨r, List.mem_append_left _ (List.mem_filter.2 ⟨hr, decide_eq_true ?_⟩), hkey⟩
        exact ⟨hunaffected, hkey ▸ hq⟩
    · exact hinserted _ (List.mem_map_of_mem hd)
  · rw [List.pairwise_append]
    refine ⟨?_, ?_, ?_⟩
    · refine (h.distinct.filter _).imp_of_mem ?_
      intro r r' hr _ hpair hkey p hp
      rcases (hmem p).1 hp with hp | rfl
      · exact hpair hkey p hp
      · exact (hkept r hr).2.2
    · have hnodup : (rows.map fun r => R.key (view r)).Nodup := by
        have hq := hR.nodup q
        rwa [← hrows, List.map_map] at hq
      exact (List.pairwise_map.1 hnodup).imp fun hne hkey => absurd hkey hne
    · intro r hr r' hr' hkey
      exact absurd (hkey ▸ List.mem_map_of_mem (hnew r' hr')) (hkept r hr).2.2

/-- **What a run of rebuilds leaves.** -/
theorem run_kept (hR : R.Coherent) {init : List ρ → Prop} {s t : List ρ} {ps : List π}
    (h : (R.machine view init).Run s ps t) : After R view s ps t :=
  h.history (I := fun ps t => After R view s ps t) (fun _ _ _ _ hafter => hafter.step hR)
    (After.nil s)

section Complete

variable {init : List ρ → Prop} {s t : List ρ} {ps : List π} (hR : R.Coherent)
  (h : (R.machine view init).Run s ps t) (hs : ∀ r ∈ s, ∃ p ∈ ps, R.affected p (view r) = true)

include hR h hs

theorem origin_run {r : ρ} (hr : r ∈ t) : ∃ p ∈ ps, view r ∈ R.derived p := by
  rcases (run_kept hR h).origin r hr with ⟨hold, hall⟩ | hderived
  · obtain ⟨p, hp, haffected⟩ := hs r hold
    rw [(hall p hp).1] at haffected
    cases haffected
  · exact hderived

/-- **What is in the table**, if each row that was there is affected by some part that was
rebuilt. -/
theorem mem_run (c : γ) :
    (∃ r ∈ t, R.content (view r) = c) ↔ ∃ p ∈ ps, ∃ d ∈ R.derived p, R.content d = c := by
  constructor
  · rintro ⟨r, hr, rfl⟩
    obtain ⟨p, hp, hderived⟩ := origin_run hR h hs hr
    exact ⟨p, hp, view r, hderived, rfl⟩
  · rintro ⟨p, hp, d, hd, rfl⟩
    obtain ⟨r, hr, hkey⟩ := (run_kept hR h).present p hp d hd
    obtain ⟨p', -, hderived⟩ := origin_run hR h hs hr
    exact ⟨r, hr, hR.agree p' p (view r) hderived d hd hkey⟩

/-- **There is one row under each key.** -/
theorem nodup_run : (t.map fun r => R.key (view r)).Nodup := by
  refine List.pairwise_map.2 ((run_kept hR h).distinct.imp_of_mem ?_)
  intro r r' hr _ hpair hkey
  obtain ⟨p, hp, hderived⟩ := origin_run hR h hs hr
  exact hpair hkey p hp (List.mem_map_of_mem hderived)

end Complete

end Rebuild

end Lib
