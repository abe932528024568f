/-
**Labelled transition systems, their runs and their invariants.**

A machine is a set of initial states and a step relation whose labels name the events.  A run is a
list of labels, extended at its end, so that a property may speak of the whole history of a run and
not only of the state it leads to.  The two rules of this module are the only inductions on runs
that the developments built on it make: an invariant that every step preserves holds in every
reachable state, and the same for a property of a history together with its last state.

Main definitions:

* `Lib.Machine` — initial states and a labelled step relation;
* `Lib.Machine.Run`, `Lib.Machine.Reachable` — runs from a state, and the reachable states;
* `Lib.Machine.ofFun` — the machine of a step function;
* `Lib.Machine.restrict` — the machine whose steps all meet a condition on the state before the
  step and the label.

Main results:

* `Lib.Machine.Run.invariant`, `Lib.Machine.Reachable.invariant` — the invariant rules;
* `Lib.Machine.Run.history` — the invariant rule for a history and its last state;
* `Lib.Machine.Run.append`, `Lib.Machine.Run.split` — runs compose and split;
* `Lib.Machine.along_iff` — **when all steps of a run are good**, if an invariant that good steps
  keep tells which they are.
-/

import Mathlib.Logic.Basic
import Mathlib.Data.List.Induction

set_option relaxedAutoImplicit false
set_option autoImplicit false

namespace Lib

universe u v

/-- A labelled transition system: which states a run may start in, and which steps it may take. -/
structure Machine (σ : Type u) (α : Type v) where
  /-- The states a run may start in. -/
  init : σ → Prop
  /-- `step s a t`: the event `a` may lead from `s` to `t`. -/
  step : σ → α → σ → Prop

namespace Machine

variable {σ : Type u} {α : Type v} {M : Machine σ α}

/-! ### Runs -/

/-- `Run M s as t`: the events `as`, in this order, lead from `s` to `t`. -/
inductive Run (M : Machine σ α) (s : σ) : List α → σ → Prop
  | nil : Run M s [] s
  | snoc {t u : σ} {as : List α} {a : α} : Run M s as t → M.step t a u → Run M s (as ++ [a]) u

/-- The states some run from an initial state leads to. -/
def Reachable (M : Machine σ α) (t : σ) : Prop := ∃ s as, M.init s ∧ Run M s as t

theorem Reachable.of_init {s : σ} (h : M.init s) : M.Reachable s := ⟨s, [], h, .nil⟩

theorem Reachable.step {s t : σ} {a : α} (h : M.Reachable s) (hs : M.step s a t) :
    M.Reachable t := by
  obtain ⟨s₀, as, h₀, hr⟩ := h
  exact ⟨s₀, as ++ [a], h₀, hr.snoc hs⟩

theorem Run.append {s t u : σ} {as bs : List α} (h : Run M s as t) (h' : Run M t bs u) :
    Run M s (as ++ bs) u := by
  induction h' with
  | nil => simpa using h
  | snoc _ hs ih =>
      rw [← List.append_assoc]
      exact ih.snoc hs

/-- A run whose history is a concatenation passes through a state between the two parts. -/
theorem Run.split {s u : σ} {as bs : List α} (h : Run M s (as ++ bs) u) :
    ∃ t, Run M s as t ∧ Run M t bs u := by
  induction bs using List.reverseRecOn generalizing u with
  | nil => exact ⟨u, by simpa using h, .nil⟩
  | append_singleton bs b ih =>
      rw [← List.append_assoc] at h
      generalize hc : as ++ bs ++ [b] = cs at h
      cases h with
      | nil => simp at hc
      | snoc hr hs =>
          obtain ⟨rfl, hb⟩ := List.append_inj' hc rfl
          obtain ⟨t, h₁, h₂⟩ := ih hr
          rw [List.singleton_inj.1 hb]
          exact ⟨t, h₁, h₂.snoc hs⟩

theorem Run.nil_inv {s t : σ} (h : Run M s [] t) : s = t := by
  generalize hc : ([] : List α) = cs at h
  cases h with
  | nil => rfl
  | snoc _ _ => simp at hc

theorem Run.single {s t : σ} {a : α} (h : M.step s a t) : Run M s [a] t := (Run.nil (s := s)).snoc h

/-- The first step of a run can be split off. -/
theorem Run.head {s u : σ} {a : α} {as : List α} (h : Run M s (a :: as) u) :
    ∃ t, M.step s a t ∧ Run M t as u := by
  obtain ⟨t, h₁, h₂⟩ := Run.split (show Run M s ([a] ++ as) u from h)
  generalize hc : [a] = cs at h₁
  cases h₁ with
  | nil => simp at hc
  | @snoc v _ as' a' hr hs =>
      obtain ⟨rfl, hb⟩ := List.append_inj' (show [] ++ [a] = as' ++ [a'] from hc) rfl
      obtain rfl := List.singleton_inj.1 hb
      obtain rfl := hr.nil_inv
      exact ⟨t, hs, h₂⟩

theorem Run.cons {s t u : σ} {a : α} {as : List α} (h : M.step s a t) (h' : Run M t as u) :
    Run M s (a :: as) u := (Run.single h).append h'

/-! ### Invariants -/

/-- **The invariant rule, along a run.** -/
theorem Run.invariant {I : σ → Prop} (hstep : ∀ s a t, I s → M.step s a t → I t)
    {s t : σ} {as : List α} (h : Run M s as t) (hs : I s) : I t := by
  induction h with
  | nil => exact hs
  | snoc _ hstep' ih => exact hstep _ _ _ ih hstep'

/-- The run that a partial step function takes along the events. -/
theorem Run.foldlM {next : σ → α → Option σ} (hnext : ∀ s a t, next s a = some t → M.step s a t)
    {s t : σ} {as : List α} (hrun : as.foldlM next s = some t) : Run M s as t := by
  induction as generalizing s with
  | nil =>
      obtain rfl := Option.some.inj hrun
      exact .nil
  | cons a as ih =>
      rw [List.foldlM_cons] at hrun
      obtain ⟨u, hu, hrest⟩ := Option.bind_eq_some_iff.1 hrun
      exact .cons (hnext s a u hu) (ih hrest)

/-- The states that a partial step function leads to. -/
theorem Reachable.foldlM {next : σ → α → Option σ}
    (hnext : ∀ s a t, next s a = some t → M.step s a t) {s t : σ} {as : List α}
    (h : M.Reachable s) (hrun : as.foldlM next s = some t) : M.Reachable t := by
  obtain ⟨s₀, as₀, h₀, hr⟩ := h
  exact ⟨s₀, as₀ ++ as, h₀, hr.append (.foldlM hnext hrun)⟩

/-- **The invariant rule**: what holds initially and survives every step holds in every reachable
state. -/
theorem Reachable.invariant {I : σ → Prop} (hinit : ∀ s, M.init s → I s)
    (hstep : ∀ s a t, I s → M.step s a t → I t) {t : σ} (h : M.Reachable t) : I t := by
  obtain ⟨s, as, h₀, hr⟩ := h
  exact hr.invariant hstep (hinit s h₀)

/-- **The invariant rule for histories**: a property of the events so far and of the state they
lead to, if it holds of the empty history and is preserved by appending one event. -/
theorem Run.history {I : List α → σ → Prop}
    (hstep : ∀ as s a t, I as s → M.step s a t → I (as ++ [a]) t)
    {s t : σ} {as : List α} (h : Run M s as t) (hs : I [] s) : I as t := by
  induction h with
  | nil => exact hs
  | snoc _ hstep' ih => exact hstep _ _ _ _ ih hstep'

/-! ### Runs whose steps all meet a condition -/

/-- The machine with only the steps that meet `C` in the state they are taken from. -/
def restrict (M : Machine σ α) (C : σ → α → Prop) : Machine σ α where
  init := M.init
  step s a t := C s a ∧ M.step s a t

theorem restrict_step {C : σ → α → Prop} {s t : σ} {a : α} :
    (M.restrict C).step s a t ↔ C s a ∧ M.step s a t := Iff.rfl

/-! ### Machines whose steps are a function -/

/-- The machine that takes exactly one step for each event. -/
def ofFun (init : σ → Prop) (next : σ → α → σ) : Machine σ α where
  init := init
  step s a t := t = next s a

/-- Its runs fold the step over the events. -/
theorem run_ofFun {init : σ → Prop} {next : σ → α → σ} (s : σ) (as : List α) :
    Run (ofFun init next) s as (as.foldl next s) := by
  induction as using List.reverseRecOn with
  | nil => exact .nil
  | append_singleton as a ih =>
      rw [List.foldl_append]
      exact ih.snoc rfl

theorem reachable_ofFun {init : σ → Prop} {next : σ → α → σ} {s : σ} (h : init s) (as : List α) :
    (ofFun init next).Reachable (as.foldl next s) := ⟨s, as, h, run_ofFun s as⟩

/-! ### Every step of a run -/

/-- Every step along the events `as` from `s` meets `P`. -/
def Along (M : Machine σ α) (s : σ) (as : List α) (P : σ → α → σ → Prop) : Prop :=
  ∀ pre a post t u, as = pre ++ a :: post → Run M s pre t → M.step t a u → P t a u

@[simp] theorem along_nil {s : σ} {P : σ → α → σ → Prop} : Along M s [] P := by
  intro pre a post t u hsplit
  simp at hsplit

/-- The last step of a run. -/
theorem Along.last {s t u : σ} {as : List α} {a : α} {P : σ → α → σ → Prop}
    (h : Along M s (as ++ [a]) P) (hr : Run M s as t) (ha : M.step t a u) : P t a u :=
  h as a [] t u rfl hr ha

/-- The first step of a run and the rest. -/
theorem along_cons {s : σ} {a : α} {as : List α} {P : σ → α → σ → Prop} :
    Along M s (a :: as) P ↔ ∀ u, M.step s a u → P s a u ∧ Along M u as P := by
  constructor
  · intro h u ha
    refine ⟨h [] a as s u rfl .nil ha, ?_⟩
    intro pre b post t v hsplit hr hb
    exact h (a :: pre) b post t v (by rw [hsplit]; rfl) (.cons ha hr) hb
  · intro h pre b post t v hsplit hr hb
    cases pre with
    | nil =>
        obtain ⟨rfl, rfl⟩ := List.cons.inj hsplit
        obtain rfl := hr.nil_inv
        exact (h v hb).1
    | cons c pre =>
        obtain ⟨rfl, rfl⟩ := List.cons.inj hsplit
        obtain ⟨u, hu, hr⟩ := hr.head
        exact (h u hu).2 pre b post t v rfl hr hb

/-- What the steps of a run that meet `P` keep holds in every state it passes. -/
theorem Along.invariant {I : σ → Prop} {P : σ → α → σ → Prop}
    (hstep : ∀ t a u, I t → M.step t a u → P t a u → I u) {s : σ} {as : List α}
    (h : Along M s as P) (hs : I s) {pre post : List α} {t : σ} (hsplit : as = pre ++ post)
    (hr : Run M s pre t) : I t := by
  induction hr generalizing post with
  | nil => exact hs
  | @snoc t u pre a hr ha ih =>
      rw [List.append_assoc] at hsplit
      exact hstep t a u (ih hsplit) ha (h pre a post t u hsplit hr ha)

/-- **When all steps of a run are good**: if an invariant that good steps keep tells which steps
are good, all steps along a run are good exactly when they all meet the condition. -/
theorem along_iff {I : σ → Prop} {P : σ → α → σ → Prop} {C : σ → α → Prop}
    (hiff : ∀ t a u, I t → M.step t a u → (P t a u ↔ C t a))
    (hstep : ∀ t a u, I t → M.step t a u → C t a → I u) {s : σ} {as : List α} (hs : I s) :
    Along M s as P ↔ Along M s as fun t a _ => C t a := by
  constructor
  · intro h pre a post t u hsplit hr ha
    have hI : I t := h.invariant
      (fun t a u hI ha hP => hstep t a u hI ha ((hiff t a u hI ha).1 hP)) hs hsplit hr
    exact (hiff t a u hI ha).1 (h pre a post t u hsplit hr ha)
  · intro h pre a post t u hsplit hr ha
    have hI : I t := h.invariant hstep hs hsplit hr
    exact (hiff t a u hI ha).2 (h pre a post t u hsplit hr ha)

/-- Whether all steps of a partial function along the events meet a condition. -/
def alongCheck (next : σ → α → Option σ) (c : σ → α → Bool) : σ → List α → Bool
  | _, [] => true
  | s, a :: as =>
      match next s a with
      | none => true
      | some t => c s a && alongCheck next c t as

/-- **The condition can be evaluated** along given events. -/
theorem along_of_check {next : σ → α → Option σ} {c : σ → α → Bool}
    (hnext : ∀ s a t, M.step s a t ↔ next s a = some t) {s : σ} {as : List α}
    (h : alongCheck next c s as = true) : Along M s as fun s a _ => c s a = true := by
  induction as generalizing s with
  | nil => exact along_nil
  | cons a as ih =>
      refine along_cons.2 fun u hu => ?_
      rw [alongCheck, (hnext s a u).1 hu, Bool.and_eq_true] at h
      exact ⟨h.1, ih h.2⟩

end Machine

end Lib
