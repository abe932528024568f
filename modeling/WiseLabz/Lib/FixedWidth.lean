/-
**Texts of fixed width.**

A number written with a fixed number of digits compares as a text the way it compares as a number,
and so does anything that is written part by part, the greater parts first, when each part has a
fixed width.

Main definitions:

* `Lib.Ordered` — texts of one length, in the order of what they stand for;
* `Lib.digits`, `Lib.readDigits` — the decimal digits of a number, and the number they stand for.

Main results:

* `Lib.Ordered.append` — **texts written part by part are ordered**;
* `Lib.ordered_digits` — so are digits of a fixed width;
* `Lib.readDigits_digits` — the number is read back.
-/

import Mathlib.Data.List.Lex
import Mathlib.Data.List.Basic
import Mathlib.Tactic.IntervalCases
import WiseLabz.Lib.Bytes

set_option relaxedAutoImplicit false
set_option autoImplicit false

namespace Lib

universe u

/-! ### The order of texts -/

section Order

variable {α : Type u} [LT α]

/-- Texts of one length compare at the first place where they differ. -/
theorem append_lt_append_of_lt {a b c d : List α} (h : a < b) (hlength : a.length = b.length) :
    a ++ c < b ++ d := by
  induction a generalizing b with
  | nil =>
      cases b with
      | nil => exact absurd h (List.not_lt_nil _)
      | cons y b => simp at hlength
  | cons x a ih =>
      cases b with
      | nil => simp at hlength
      | cons y b =>
          rw [List.cons_append, List.cons_append]
          rcases List.cons_lt_cons_iff.1 h with hxy | ⟨rfl, hab⟩
          · exact List.cons_lt_cons_iff.2 (Or.inl hxy)
          · exact List.cons_lt_cons_iff.2 (Or.inr ⟨rfl, ih hab (by simpa using hlength)⟩)

/-- The texts `c t` of the numbers with `P`: all of length `n`, and in the order of the numbers. -/
structure Ordered (P : ℕ → Prop) (n : ℕ) (c : ℕ → List α) : Prop where
  length : ∀ t, P t → (c t).length = n
  lt : ∀ t u, P t → P u → t < u → c t < c u

namespace Ordered

variable {P Q : ℕ → Prop} {n m : ℕ} {c : ℕ → List α}

/-- The texts compare as the numbers do. -/
theorem lt_iff [Std.Asymm (fun a b : α => a < b)] (h : Ordered P n c) {t u : ℕ} (ht : P t)
    (hu : P u) : c t < c u ↔ t < u := by
  refine ⟨fun hlt => ?_, h.lt t u ht hu⟩
  rcases Nat.lt_trichotomy t u with htu | rfl | hut
  · exact htu
  · exact absurd hlt (List.lt_irrefl _)
  · exact absurd hlt (List.lt_asymm (h.lt u t hu ht hut))

/-- Different numbers have different texts. -/
theorem eq_iff [Std.Asymm (fun a b : α => a < b)] (h : Ordered P n c) {t u : ℕ} (ht : P t)
    (hu : P u) : c t = c u ↔ t = u := by
  refine ⟨fun heq => ?_, congrArg c⟩
  rcases Nat.lt_trichotomy t u with htu | rfl | hut
  · exact absurd (heq ▸ h.lt t u ht hu htu) (List.lt_irrefl _)
  · rfl
  · exact absurd (heq ▸ h.lt u t hu ht hut) (List.lt_irrefl _)

/-- **Texts written part by part are ordered**: first `q t`, then within it `r t`. -/
theorem append {q r : ℕ → ℕ} {R : ℕ → ℕ → Prop} {d : ℕ → ℕ → List α} (hc : Ordered Q n c)
    (hd : ∀ y, Ordered (R y) m (d y)) (hQ : ∀ t, P t → Q (q t)) (hR : ∀ t, P t → R (q t) (r t))
    (hq : ∀ t u, t ≤ u → q t ≤ q u) (hr : ∀ t u, q t = q u → t < u → r t < r u) :
    Ordered P (n + m) (fun t => c (q t) ++ d (q t) (r t)) where
  length t ht := by rw [List.length_append, hc.length _ (hQ t ht), (hd _).length _ (hR t ht)]
  lt t u ht hu htu := by
    rcases Nat.lt_or_eq_of_le (hq t u htu.le) with hlt | heq
    · refine append_lt_append_of_lt (hc.lt _ _ (hQ t ht) (hQ u hu) hlt) ?_
      rw [hc.length _ (hQ t ht), hc.length _ (hQ u hu)]
    · rw [heq]
      refine List.append_left_lt ((hd _).lt _ _ ?_ (hR u hu) (hr t u heq htu))
      exact heq ▸ hR t ht

/-- A quotient and its remainder. -/
theorem append_divMod {d : ℕ → List α} {k N : ℕ} (hk : 0 < k) (hc : Ordered (· < N) n c)
    (hd : Ordered (· < k) m d) : Ordered (· < N * k) (n + m) (fun t => c (t / k) ++ d (t % k)) := by
  refine hc.append (q := (· / k)) (r := (· % k)) (R := fun _ => (· < k)) (d := fun _ => d)
    (fun _ => hd) ?_ (fun t _ => Nat.mod_lt t hk) (fun t u h => Nat.div_le_div_right h) ?_
  · intro t ht
    exact Nat.div_lt_of_lt_mul (by rwa [Nat.mul_comm])
  · intro t u heq htu
    have ht := Nat.div_add_mod t k
    have hu := Nat.div_add_mod u k
    rw [show t / k = u / k from heq] at ht
    omega

/-- Fewer numbers. -/
theorem mono (h : Ordered Q n c) (hQ : ∀ t, P t → Q t) : Ordered P n c :=
  ⟨fun t ht => h.length t (hQ t ht), fun t u ht hu => h.lt t u (hQ t ht) (hQ u hu)⟩

/-- A fixed text in front. -/
theorem prepend (h : Ordered P n c) (sep : List α) :
    Ordered P (sep.length + n) (fun t => sep ++ c t) where
  length t ht := by rw [List.length_append, h.length t ht]
  lt t u ht hu htu := List.append_left_lt (h.lt t u ht hu htu)

/-- A fixed text behind. -/
theorem concat (h : Ordered P n c) (sep : List α) :
    Ordered P (n + sep.length) (fun t => c t ++ sep) where
  length t ht := by rw [List.length_append, h.length t ht]
  lt t u ht hu htu := by
    refine append_lt_append_of_lt (h.lt t u ht hu htu) ?_
    rw [h.length t ht, h.length u hu]

/-- Numbers counted from elsewhere. -/
theorem comp (h : Ordered Q n c) {f : ℕ → ℕ} (hf : ∀ t u, t < u → f t < f u)
    (hQ : ∀ t, P t → Q (f t)) : Ordered P n (fun t => c (f t)) where
  length t ht := h.length _ (hQ t ht)
  lt t u ht hu htu := h.lt _ _ (hQ t ht) (hQ u hu) (hf t u htu)

end Ordered

end Order

/-! ### Decimal digits -/

/-- The last `width` decimal digits of a number. -/
def digits : ℕ → ℕ → Bytes
  | 0, _ => []
  | width + 1, n => digits width (n / 10) ++ [(48 + n % 10).toUInt8]

@[simp] theorem digits_length (width n : ℕ) : (digits width n).length = width := by
  induction width generalizing n with
  | zero => rfl
  | succ width ih => simp [digits, ih]

theorem ordered_digit : Ordered (· < 10) 1 (fun n => [(48 + n).toUInt8]) where
  length _ _ := rfl
  lt t u ht hu htu := by
    interval_cases u <;> interval_cases t <;> decide

/-- **Digits of a fixed width are ordered.** -/
theorem ordered_digits (width : ℕ) : Ordered (· < 10 ^ width) width (digits width) := by
  induction width with
  | zero => exact ⟨fun _ _ => rfl, fun t u ht hu htu => by simp at ht hu; omega⟩
  | succ width ih =>
      rw [Nat.pow_succ]
      exact ih.append_divMod (by decide) ordered_digit

/-- The value of a decimal digit. -/
def digitValue (b : UInt8) : Option ℕ := if 48 ≤ b ∧ b ≤ 57 then some (b.toNat - 48) else none

theorem digitValue_digit {n : ℕ} (h : n < 10) : digitValue (48 + n).toUInt8 = some n := by
  interval_cases n <;> rfl

theorem digitValue_of_mem_digits {width n : ℕ} {b : UInt8} (h : b ∈ digits width n) :
    (digitValue b).isSome = true := by
  induction width generalizing n with
  | zero => cases h
  | succ width ih =>
      rcases List.mem_append.1 h with h | h
      · exact ih h
      · rw [List.mem_singleton.1 h, digitValue_digit (Nat.mod_lt n (by decide))]
        rfl

/-- A hyphen is before every digit. -/
theorem lt_of_mem_digits {width n : ℕ} {b : UInt8} (h : b ∈ digits width n) : 45 < b := by
  have hvalue := digitValue_of_mem_digits h
  rw [digitValue] at hvalue
  split at hvalue
  · next hb => exact Std.lt_of_lt_of_le (by decide) hb.1
  · cases hvalue

/-- Reads `width` decimal digits, after a number that is read already. -/
def readDigits : ℕ → ℕ → Bytes → Option (ℕ × Bytes)
  | 0, n, s => some (n, s)
  | _ + 1, _, [] => none
  | width + 1, n, b :: s => (digitValue b).bind fun d => readDigits width (10 * n + d) s

/-- Digits are read one after the other. -/
theorem readDigits_append {width n v : ℕ} {s s' : Bytes} (hlength : s.length = width)
    (h : readDigits width n s = some (v, [])) (k : ℕ) :
    readDigits (width + k) n (s ++ s') = readDigits k v s' := by
  induction width generalizing n s with
  | zero =>
      obtain rfl := List.length_eq_zero_iff.1 hlength
      simp only [readDigits, Option.some.injEq, Prod.mk.injEq, and_true] at h
      rw [Nat.zero_add, h, List.nil_append]
  | succ width ih =>
      cases s with
      | nil => simp at hlength
      | cons b s =>
          simp only [readDigits, Option.bind_eq_some_iff] at h
          obtain ⟨d, hd, h⟩ := h
          rw [Nat.succ_add, List.cons_append, readDigits, hd, Option.bind_some]
          exact ih (by simpa using hlength) h

/-- **The number is read back.** -/
theorem readDigits_digits {width n : ℕ} (h : n < 10 ^ width) (s : Bytes) :
    readDigits width 0 (digits width n ++ s) = some (n, s) := by
  have hread : ∀ width n, n < 10 ^ width → readDigits width 0 (digits width n) = some (n, []) := by
    intro width
    induction width with
    | zero =>
        intro n hn
        obtain rfl : n = 0 := by simpa using hn
        rfl
    | succ width ih =>
        intro n hn
        have hdiv : n / 10 < 10 ^ width := Nat.div_lt_of_lt_mul (by rwa [Nat.pow_succ'] at hn)
        rw [digits, readDigits_append (digits_length _ _) (ih _ hdiv)]
        simp only [readDigits, digitValue_digit (Nat.mod_lt n (by decide)), Option.bind_some]
        rw [Nat.div_add_mod]
  have happend : readDigits (width + 0) 0 (digits width n ++ s) = readDigits 0 n s :=
    readDigits_append (digits_length width n) (hread width n h) 0
  rwa [Nat.add_zero, readDigits] at happend

end Lib
