/-
**Texts and their encodings.**

A text is a list of characters.  A program sees its UTF-8 bytes, or its UTF-16 code units; an ASCII
character is one unit of either, and no other character begins with such a unit.

Main definitions:

* `Lib.utf8`, `Lib.utf16` — the encodings;
* `Lib.widen` — the code units of an ASCII text.

Main results:

* `Lib.utf8_eq_iff_utf16_eq` — a text is an ASCII text in one encoding if it is in the other;
* `Lib.splitOn_utf8`, `Lib.splitOn_utf16` — the parts of a text between ASCII characters.
-/

import WiseLabz.Lib.Bytes
import WiseLabz.Lib.Split

set_option relaxedAutoImplicit false
set_option autoImplicit false

namespace Lib

/-- The UTF-8 bytes of a text. -/
def utf8 (t : List Char) : Bytes := t.flatMap String.utf8EncodeChar

/-- The UTF-16 code units of a character: one, or a pair of surrogates. -/
def utf16Char (c : Char) : List UInt16 :=
  if c.toNat < 0x10000 then [UInt16.ofNat c.toNat]
  else
    [UInt16.ofNat (0xD800 + (c.toNat - 0x10000) / 0x400),
      UInt16.ofNat (0xDC00 + (c.toNat - 0x10000) % 0x400)]

/-- The UTF-16 code units of a text. -/
def utf16 (t : List Char) : List UInt16 := t.flatMap utf16Char

/-- The code units of an ASCII text. -/
def widen (s : Bytes) : List UInt16 := s.map UInt8.toUInt16

/-! ### ASCII characters -/

section Ascii

variable {β : Type} {enc : Char → List β} {code : UInt8 → β}

/-- An encoding that writes an ASCII character as one unit, and any other character with units that
no ASCII character has. -/
structure AsciiCompatible (enc : Char → List β) (code : UInt8 → β) : Prop where
  inj : ∀ {a b : UInt8}, code a = code b → a = b
  ascii : ∀ c : Char, c.toNat < 128 → enc c = [code (UInt8.ofNat c.toNat)]
  ne_nil : ∀ c : Char, enc c ≠ []
  other : ∀ c : Char, 128 ≤ c.toNat → ∀ u ∈ enc c, ∀ b : UInt8, b < 128 → u ≠ code b

/-- **The texts that are encoded as an ASCII text.** -/
theorem AsciiCompatible.flatMap_eq_iff (h : AsciiCompatible enc code) {t : List Char} {s : Bytes}
    (hs : ∀ b ∈ s, b < 128) :
    t.flatMap enc = s.map code ↔ t.map Char.toNat = s.map UInt8.toNat := by
  induction t generalizing s with
  | nil => cases s <;> simp
  | cons c t ih =>
      rw [List.flatMap_cons, List.map_cons]
      by_cases hc : c.toNat < 128
      · rw [h.ascii c hc, List.singleton_append]
        cases s with
        | nil => simp
        | cons b s =>
            have hb : code (UInt8.ofNat c.toNat) = code b ↔ c.toNat = b.toNat := by
              constructor
              · intro heq
                rw [← h.inj heq, UInt8.toNat_ofNat_of_lt' (hc.trans (by decide))]
              · intro heq
                rw [heq, UInt8.ofNat_toNat]
            rw [List.map_cons, List.map_cons, List.cons.injEq, List.cons.injEq, hb,
              ih fun b' hb' => hs b' (List.mem_cons_of_mem _ hb')]
      · obtain ⟨u, us, hu⟩ := List.exists_cons_of_ne_nil (h.ne_nil c)
        have hne := h.other c (Nat.not_lt.1 hc) u (hu ▸ List.mem_cons_self)
        rw [hu, List.cons_append]
        cases s with
        | nil => simp
        | cons b s =>
            have hb : b < 128 := hs b List.mem_cons_self
            rw [List.map_cons, List.map_cons, List.cons.injEq, List.cons.injEq]
            refine iff_of_false (fun heq => hne b hb heq.1) fun heq => hc ?_
            rw [heq.1]
            exact UInt8.lt_iff_toNat_lt.1 hb

theorem toNat_ofNat_of_lt {n : ℕ} (h : n < 0xd800) : (Char.ofNat n).toNat = n := by
  have hvalid : n.isValidChar := .inl h
  rw [Char.ofNat, dif_pos hvalid]
  rfl

/-- The parts of an encoded text between ASCII characters. -/
theorem AsciiCompatible.splitOn [DecidableEq β] (h : AsciiCompatible enc code) {a : UInt8}
    (ha : a < 128) (t : List Char) :
    (t.flatMap enc).splitOn (code a) =
      (t.splitOn (Char.ofNat a.toNat)).map (List.flatMap enc) := by
  have hvalid : (Char.ofNat a.toNat).toNat = a.toNat :=
    toNat_ofNat_of_lt ((UInt8.lt_iff_toNat_lt.1 ha).trans (by decide))
  refine splitOn_flatMap ?_ fun c _ hc hmem => ?_
  · rw [h.ascii _ (by rw [hvalid]; exact UInt8.lt_iff_toNat_lt.1 ha), hvalid, UInt8.ofNat_toNat]
  · by_cases hlt : c.toNat < 128
    · rw [h.ascii c hlt, List.mem_singleton] at hmem
      have heq := h.inj hmem
      refine hc (Char.toNat_inj.1 ?_)
      rw [hvalid, heq, UInt8.toNat_ofNat_of_lt' (hlt.trans (by decide))]
    · exact h.other c (Nat.not_lt.1 hlt) _ hmem a ha rfl

end Ascii

theorem asciiCompatible_utf8 : AsciiCompatible String.utf8EncodeChar id := by
  have hbytes : ∀ c : Char, 128 ≤ c.toNat → ∀ u ∈ String.utf8EncodeChar c, 128 ≤ u := by
    intro c hc u hu
    have hval : ¬ c.val.toNat ≤ 0x7f := by
      have : c.val.toNat = c.toNat := rfl
      omega
    unfold String.utf8EncodeChar at hu
    simp only [hval, if_false] at hu
    rw [UInt8.le_iff_toNat_le]
    split at hu
    · simp only [List.mem_cons, List.not_mem_nil, or_false] at hu
      rcases hu with rfl | rfl <;> simp [UInt8.toNat_ofNat'] <;> omega
    · split at hu
      · simp only [List.mem_cons, List.not_mem_nil, or_false] at hu
        rcases hu with rfl | rfl | rfl <;> simp [UInt8.toNat_ofNat'] <;> omega
      · simp only [List.mem_cons, List.not_mem_nil, or_false] at hu
        rcases hu with rfl | rfl | rfl | rfl <;> simp [UInt8.toNat_ofNat'] <;> omega
  have hne : ∀ {u b : UInt8}, 128 ≤ u → b < 128 → u ≠ id b := by
    rintro u b hu hb rfl
    exact absurd hu (UInt8.not_le.2 hb)
  refine ⟨fun h => h, fun c hc => ?_, fun _ => String.utf8EncodeChar_ne_nil,
    fun c hc u hu b hb => hne (hbytes c hc u hu) hb⟩
  have hval : c.val.toNat ≤ 0x7f := Nat.lt_succ_iff.1 hc
  unfold String.utf8EncodeChar
  simp only [hval, if_true]
  rfl

theorem asciiCompatible_utf16 : AsciiCompatible utf16Char UInt8.toUInt16 := by
  have hunits : ∀ c : Char, 128 ≤ c.toNat → ∀ u ∈ utf16Char c, 128 ≤ u.toNat := by
    intro c hc u hu
    have hmax : c.toNat < 0x110000 := by
      rcases c.valid with h | h
      · exact Nat.lt_trans h (by decide)
      · exact h.2
    unfold utf16Char at hu
    split at hu
    · rw [List.mem_singleton.1 hu, UInt16.toNat_ofNat']
      omega
    · simp only [List.mem_cons, List.not_mem_nil, or_false] at hu
      rcases hu with rfl | rfl <;> rw [UInt16.toNat_ofNat'] <;> omega
  have hne : ∀ {u : UInt16} {b : UInt8}, 128 ≤ u.toNat → b < 128 → u ≠ b.toUInt16 := by
    rintro u b hu hb rfl
    rw [UInt8.toNat_toUInt16] at hu
    exact absurd (UInt8.lt_iff_toNat_lt.1 hb) (Nat.not_lt.2 hu)
  refine ⟨fun h => ?_, fun c hc => ?_, fun c => ?_,
    fun c hc u hu b hb => hne (hunits c hc u hu) hb⟩
  · have := congrArg UInt16.toNat h
    rw [UInt8.toNat_toUInt16, UInt8.toNat_toUInt16] at this
    exact UInt8.toNat_inj.1 this
  · rw [utf16Char, if_pos (hc.trans (by decide))]
    refine congrArg (· :: []) (UInt16.toNat_inj.1 ?_)
    rw [UInt16.toNat_ofNat_of_lt' (hc.trans (by decide)), UInt8.toNat_toUInt16,
      UInt8.toNat_ofNat_of_lt' (hc.trans (by decide))]
  · unfold utf16Char
    split <;> exact List.cons_ne_nil _ _

/-- **A text is an ASCII text in one encoding if it is in the other.** -/
theorem utf8_eq_iff_utf16_eq {t : List Char} {s : Bytes} (hs : ∀ b ∈ s, b < 128) :
    utf8 t = s ↔ utf16 t = widen s := by
  have h8 := asciiCompatible_utf8.flatMap_eq_iff (t := t) hs
  rw [List.map_id] at h8
  exact h8.trans (asciiCompatible_utf16.flatMap_eq_iff hs).symm

theorem splitOn_utf8 {a : UInt8} (ha : a < 128) (t : List Char) :
    (utf8 t).splitOn a = (t.splitOn (Char.ofNat a.toNat)).map utf8 :=
  asciiCompatible_utf8.splitOn ha t

theorem splitOn_utf16 {a : UInt8} (ha : a < 128) (t : List Char) :
    (utf16 t).splitOn a.toUInt16 = (t.splitOn (Char.ofNat a.toNat)).map utf16 :=
  asciiCompatible_utf16.splitOn ha t

end Lib
