/-
**Values under a version.**

A cell has a value under a version number, and each write gives it the next version.  Somebody who has
read the cell holds what was in it then: either it is what is in it still, or a write has come since
and the version is behind.  To compare the versions is therefore to compare the values, as long as
no write leaves the version as it is.

Main definitions:

* `Lib.Versioned` — a value and its version;
* `Lib.Held`, `Lib.Held.Ok` — **what somebody has read**, and whether a write has come since;
* `Lib.Shown` — each value that the cell has had is the only one of its version.

Main results:

* `Lib.Held.Ok.overtake`, `Lib.Shown.write` — what a write keeps;
* `Lib.Held.Ok.overtaken_iff` — **a version is behind exactly when a write has come since**;
* `Lib.Shown.eq_of_version` — what was read under the version of the cell is what is in it.
-/

import Mathlib.Data.List.Basic
import Mathlib.Order.Nat

set_option relaxedAutoImplicit false
set_option autoImplicit false

namespace Lib

universe u

/-- A value and its version. -/
structure Versioned (α : Type u) where
  version : ℕ
  value : α
  deriving DecidableEq, Repr

variable {α : Type u} {cell cell' : Versioned α}

/-! ### Reading -/

/-- What was read of the cell, and whether a write of somebody else has come since. -/
structure Held (α : Type u) where
  read : Versioned α
  overtaken : Bool
  deriving DecidableEq, Repr

/-- After a write of somebody else. -/
def Held.overtake (k : Held α) : Held α := { k with overtaken := true }

@[simp] theorem Held.overtake_read (k : Held α) : k.overtake.read = k.read := rfl

/-- **What was read is what is in the cell, unless a write has come since**, and then its version is
behind. -/
structure Held.Ok (cell : Versioned α) (k : Held α) : Prop where
  current : k.overtaken = false → k.read = cell
  behind : k.overtaken = true → k.read.version < cell.version

theorem Held.ok_of_read (cell : Versioned α) : (Held.mk cell false).Ok cell :=
  ⟨fun _ => rfl, fun h => by cases h⟩

variable {k : Held α}

theorem Held.Ok.version_le (h : k.Ok cell) : k.read.version ≤ cell.version := by
  cases hk : k.overtaken with
  | false => rw [h.current hk]
  | true => exact (h.behind hk).le

/-- A write puts what was read behind. -/
theorem Held.Ok.overtake (h : k.Ok cell) (hnext : cell.version < cell'.version) :
    k.overtake.Ok cell' :=
  ⟨fun hk => (by cases hk), fun _ => h.version_le.trans_lt hnext⟩

/-- **A version is behind exactly when a write has come since.** -/
theorem Held.Ok.overtaken_iff (h : k.Ok cell) :
    k.overtaken = true ↔ k.read.version ≠ cell.version := by
  constructor
  · intro hk
    exact (h.behind hk).ne
  · intro hne
    by_contra hk
    exact hne (by rw [h.current (by simpa using hk)])

/-- What was read under the version of the cell is what is in it. -/
theorem Held.Ok.read_eq (h : k.Ok cell) (hversion : k.read.version = cell.version) :
    k.read = cell := by
  refine h.current ?_
  by_contra hk
  exact h.overtaken_iff.1 (by simpa using hk) hversion

/-! ### What the cell has shown -/

/-- The log has what was in the cell at each time, and each version has only one value. -/
structure Shown (cell : Versioned α) (log : List (Versioned α)) : Prop where
  last : cell ∈ log
  bound : ∀ x ∈ log, x.version ≤ cell.version
  agree : ∀ x ∈ log, ∀ y ∈ log, x.version = y.version → x = y

theorem shown_singleton (cell : Versioned α) : Shown cell [cell] where
  last := List.mem_singleton_self cell
  bound x hx := by rw [List.mem_singleton.1 hx]
  agree x hx y hy _ := (List.mem_singleton.1 hx).trans (List.mem_singleton.1 hy).symm

variable {log : List (Versioned α)}

/-- **What was shown under the version of the cell is what is in it.** -/
theorem Shown.eq_of_version (h : Shown cell log) {x : Versioned α} (hx : x ∈ log)
    (hversion : x.version = cell.version) : x = cell := h.agree x hx cell h.last hversion

/-- A write under a later version. -/
theorem Shown.write (h : Shown cell log) (hnext : cell.version < cell'.version) :
    Shown cell' (log ++ [cell']) where
  last := List.mem_append_right _ (List.mem_singleton_self cell')
  bound x hx := by
    rcases List.mem_append.1 hx with hx | hx
    · exact ((h.bound x hx).trans_lt hnext).le
    · rw [List.mem_singleton.1 hx]
  agree x hx y hy hversion := by
    rcases List.mem_append.1 hx with hx | hx <;> rcases List.mem_append.1 hy with hy | hy
    · exact h.agree x hx y hy hversion
    · rw [List.mem_singleton.1 hy] at hversion
      exact absurd (hversion ▸ h.bound x hx) hnext.not_ge
    · rw [List.mem_singleton.1 hx] at hversion
      exact absurd (hversion ▸ h.bound y hy) hnext.not_ge
    · exact (List.mem_singleton.1 hx).trans (List.mem_singleton.1 hy).symm

end Lib
