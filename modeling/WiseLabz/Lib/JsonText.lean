/-
**Texts: white space, and the way through JSON.**

An encoder of JSON writes the characters of a text and, for every byte that begins no UTF-8
character, the escape of the replacement character; a decoder reads that escape as the three bytes
of the character.  A text that is valid UTF-8 comes back as it was, any other comes back longer.

Main definitions:

* `Lib.trimSpace` — a text without the white space around it;
* `Lib.runeWidth` — the width of the UTF-8 character at the start of a text, 0 if there is none;
* `Lib.jsonEncode`, `Lib.jsonDecode` — an encoded text, byte by byte: a byte, or the escape;
* `Lib.jsonText` — **a text as it is read back**.

Main results:

* `Lib.jsonText_eq_self_iff` — the texts that come back are those with no escape;
* `Lib.jsonEncode_inj` — of them, no other text has the same encoding.
-/

import WiseLabz.Lib.Bytes

set_option relaxedAutoImplicit false
set_option autoImplicit false

namespace Lib

/-! ### White space -/

/-- The UTF-8 encodings of the white space characters. -/
def spaceEncodings : List Bytes :=
  [[0x09], [0x0A], [0x0B], [0x0C], [0x0D], [0x20], [0xC2, 0x85], [0xC2, 0xA0], [0xE1, 0x9A, 0x80],
    [0xE2, 0x80, 0xA8], [0xE2, 0x80, 0xA9], [0xE2, 0x80, 0xAF], [0xE2, 0x81, 0x9F],
    [0xE3, 0x80, 0x80]] ++ (List.range 11).map fun i => [0xE2, 0x80, 0x80 + i.toUInt8]

/-- The text without up to `n` of some pieces at its start. -/
def dropPieces (pieces : List Bytes) : ℕ → Bytes → Bytes
  | 0, s => s
  | n + 1, s =>
      match pieces.findSome? fun p => stripPrefix p s with
      | some t => dropPieces pieces n t
      | none => s

/-- **The text without the white space around it.** -/
def trimSpace (s : Bytes) : Bytes :=
  let t := dropPieces spaceEncodings s.length s
  (dropPieces (spaceEncodings.map List.reverse) t.length t.reverse).reverse

@[simp] theorem trimSpace_nil : trimSpace [] = [] := rfl

/-! ### Characters -/

/-- A byte that continues a character. -/
def isTail (b : UInt8) : Bool := 0x80 ≤ b && b ≤ 0xBF

/-- The width of the character at the start of a text, 0 if its first byte begins none. -/
def runeWidth : Bytes → ℕ
  | [] => 0
  | a :: s =>
      if a < 0x80 then 1
      else if 0xC2 ≤ a ∧ a ≤ 0xDF then
        match s with
        | b :: _ => if isTail b then 2 else 0
        | [] => 0
      else if 0xE0 ≤ a ∧ a ≤ 0xEF then
        match s with
        -- no overlong forms and no surrogates
        | b :: c :: _ =>
            if isTail b && isTail c && (a != 0xE0 || 0xA0 ≤ b) && (a != 0xED || b ≤ 0x9F) then 3
            else 0
        | _ => 0
      else if 0xF0 ≤ a ∧ a ≤ 0xF4 then
        match s with
        -- no overlong forms and nothing above the last code point
        | b :: c :: d :: _ =>
            if isTail b && isTail c && isTail d && (a != 0xF0 || 0x90 ≤ b) &&
              (a != 0xF4 || b ≤ 0x8F) then 4
            else 0
        | _ => 0
      else 0

/-! ### Encoding -/

/-- The encoding of what follows `n` bytes of a character: a byte of the text is kept (`some`) or
replaced by the escape (`none`). -/
def jsonEncodeFrom : ℕ → Bytes → List (Option UInt8)
  | _, [] => []
  | n + 1, b :: s => some b :: jsonEncodeFrom n s
  | 0, b :: s =>
      match runeWidth (b :: s) with
      | 0 => none :: jsonEncodeFrom 0 s
      | n + 1 => some b :: jsonEncodeFrom n s

/-- An encoded text. -/
def jsonEncode (s : Bytes) : List (Option UInt8) := jsonEncodeFrom 0 s

/-- The text of an encoding. -/
def jsonDecode (e : List (Option UInt8)) : Bytes :=
  e.flatMap fun
    | some b => [b]
    | none => [0xEF, 0xBF, 0xBD]

/-- **A text as it is read back.** -/
def jsonText (s : Bytes) : Bytes := jsonDecode (jsonEncode s)

theorem jsonEncodeFrom_length (n : ℕ) (s : Bytes) : (jsonEncodeFrom n s).length = s.length := by
  induction s generalizing n with
  | nil => simp [jsonEncodeFrom]
  | cons b s ih =>
      cases n with
      | succ n => simp [jsonEncodeFrom, ih]
      | zero =>
          rw [jsonEncodeFrom]
          split
          · simp [ih]
          · simp [ih]

@[simp] theorem jsonEncode_length (s : Bytes) : (jsonEncode s).length = s.length :=
  jsonEncodeFrom_length 0 s

theorem jsonEncodeFrom_eq_map {n : ℕ} {s : Bytes} (h : none ∉ jsonEncodeFrom n s) :
    jsonEncodeFrom n s = s.map some := by
  induction s generalizing n with
  | nil => simp [jsonEncodeFrom]
  | cons b s ih =>
      cases n with
      | succ n =>
          rw [jsonEncodeFrom, List.mem_cons, not_or] at h
          rw [jsonEncodeFrom, ih h.2, List.map_cons]
      | zero =>
          rw [jsonEncodeFrom] at h ⊢
          split at h
          · exact absurd (List.mem_cons_self ..) h
          · rw [List.mem_cons, not_or] at h
            rw [ih h.2, List.map_cons]

/-- A text without an escape is encoded as it is. -/
theorem jsonEncode_eq_map {s : Bytes} (h : none ∉ jsonEncode s) : jsonEncode s = s.map some :=
  jsonEncodeFrom_eq_map h

/-! ### Decoding -/

@[simp] theorem jsonDecode_map_some (s : Bytes) : jsonDecode (s.map some) = s := by
  induction s with
  | nil => rfl
  | cons b s ih => simpa [jsonDecode] using ih

/-- Every escape makes the text two bytes longer. -/
theorem jsonDecode_length (e : List (Option UInt8)) :
    (jsonDecode e).length = e.length + 2 * e.count none := by
  induction e with
  | nil => rfl
  | cons x e ih =>
      rw [jsonDecode] at ih
      rw [jsonDecode, List.flatMap_cons, List.length_append, ih]
      cases x with
      | some b =>
          have hcount : (some b :: e).count none = e.count none :=
            List.count_cons_of_ne (Option.some_ne_none b)
          simp only [hcount, List.length_cons, List.length_nil]
          omega
      | none =>
          have hcount : (none :: e).count none = e.count none + 1 := List.count_cons_self
          simp only [hcount, List.length_cons, List.length_nil]
          omega

/-- **The texts that come back** are those with no escape. -/
theorem jsonText_eq_self_iff {s : Bytes} : jsonText s = s ↔ none ∉ jsonEncode s := by
  constructor
  · intro h
    have hlength := jsonDecode_length (jsonEncode s)
    rw [show jsonDecode (jsonEncode s) = s from h, jsonEncode_length] at hlength
    rw [← List.count_eq_zero]
    omega
  · intro h
    rw [jsonText, jsonEncode_eq_map h, jsonDecode_map_some]

/-- **A text that comes back** is told apart from every other one. -/
theorem jsonEncode_inj {s t : Bytes} (hs : jsonText s = s) (h : jsonEncode s = jsonEncode t) :
    s = t := by
  have hnone := jsonText_eq_self_iff.1 hs
  calc s = jsonText s := hs.symm
    _ = jsonText t := by rw [jsonText, h, jsonText]
    _ = t := jsonText_eq_self_iff.2 (h ▸ hnone)

@[simp] theorem jsonText_nil : jsonText [] = [] := rfl

theorem jsonText_eq_nil_iff {s : Bytes} : jsonText s = [] ↔ s = [] := by
  rw [← List.length_eq_zero_iff, ← List.length_eq_zero_iff, jsonText, jsonDecode_length,
    jsonEncode_length]
  constructor
  · intro h
    omega
  · intro h
    have hcount := List.count_le_length (a := none) (l := jsonEncode s)
    rw [jsonEncode_length] at hcount
    omega

-- A character of two bytes, and a byte that begins none.
example : jsonText [0xC3, 0xA9, 0xFF, 0x41] = [0xC3, 0xA9, 0xEF, 0xBF, 0xBD, 0x41] := by decide

end Lib
