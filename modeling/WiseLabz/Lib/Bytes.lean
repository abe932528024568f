/-
**Byte strings and SHA-256.**

A string of the modelled language is a sequence of bytes, so texts are lists of bytes here and an
ASCII literal is written as the list of its codes.  The hash is the standard one, in the functional
style of its specification: the message is padded to a multiple of 64 bytes, each block is expanded
to 64 words and the eight state words are mixed with them.

Main definitions:

* `Lib.Bytes`, `Lib.bytes` — byte strings, and the bytes of an ASCII literal;
* `Lib.stripPrefix` — what follows a prefix;
* `Lib.Sha256.sum` — the digest of a byte string, and `Lib.hexEncode` its lower-case hex form.
-/

import Mathlib.Data.List.Basic
import Mathlib.Data.List.TakeWhile
import Mathlib.Tactic.IntervalCases

set_option relaxedAutoImplicit false
set_option autoImplicit false

namespace Lib

/-! ### Byte strings -/

/-- A byte string. -/
abbrev Bytes := List UInt8

instance : LawfulBEq Bytes := inferInstance

/-- A property of the bytes of a string is decided along the string, not for all 256 bytes. -/
instance (priority := high) decidableForallMem (s : Bytes) (p : UInt8 → Prop) [DecidablePred p] :
    Decidable (∀ b ∈ s, p b) :=
  List.decidableBAll p s

/-- The bytes of an ASCII literal. -/
def bytes (s : String) : Bytes := s.toList.map fun c => c.toNat.toUInt8

/-- What follows `pre` in `s`, if `s` starts with it. -/
def stripPrefix : Bytes → Bytes → Option Bytes
  | [], s => some s
  | _ :: _, [] => none
  | p :: pre, b :: s => if p = b then stripPrefix pre s else none

theorem stripPrefix_eq_some {pre s r : Bytes} : stripPrefix pre s = some r ↔ s = pre ++ r := by
  induction pre generalizing s with
  | nil => simp [stripPrefix, eq_comm]
  | cons p pre ih =>
      cases s with
      | nil => simp [stripPrefix]
      | cons b s =>
          by_cases h : p = b
          · simp [stripPrefix, h, ih]
          · simp [stripPrefix, h, Ne.symm h]

@[simp] theorem stripPrefix_append (pre s : Bytes) : stripPrefix pre (pre ++ s) = some s :=
  stripPrefix_eq_some.2 rfl

/-! ### Hexadecimal -/

/-- The lower-case hex digit of a number below 16. -/
def hexDigit (n : ℕ) : UInt8 := if n < 10 then (48 + n).toUInt8 else (87 + n).toUInt8

/-- Two lower-case hex digits for each byte. -/
def hexEncode (s : Bytes) : Bytes :=
  s.flatMap fun b => [hexDigit (b.toNat / 16), hexDigit (b.toNat % 16)]

/-- The digits `0`–`9` and `a`–`f`. -/
def isHexChar (b : UInt8) : Bool := (48 ≤ b && b ≤ 57) || (97 ≤ b && b ≤ 102)

theorem isHexChar_hexDigit {n : ℕ} (h : n < 16) : isHexChar (hexDigit n) = true := by
  interval_cases n <;> rfl

@[simp] theorem hexEncode_length (s : Bytes) : (hexEncode s).length = 2 * s.length := by
  induction s with
  | nil => rfl
  | cons b s ih => simp only [hexEncode, List.flatMap_cons] at ih ⊢; simp [ih]; omega

theorem hexDigit_inj {m n : ℕ} (hm : m < 16) (hn : n < 16) (h : hexDigit m = hexDigit n) :
    m = n := by
  have hall : ∀ a b : Fin 16, hexDigit a = hexDigit b → a = b := by decide
  exact congrArg Fin.val (hall ⟨m, hm⟩ ⟨n, hn⟩ h)

/-- The hex form tells a byte string. -/
theorem hexEncode_inj {s t : Bytes} (h : hexEncode s = hexEncode t) : s = t := by
  induction s generalizing t with
  | nil =>
      have hlength := congrArg List.length h
      rw [hexEncode_length, hexEncode_length, List.length_nil] at hlength
      exact (List.length_eq_zero_iff.1 (by omega)).symm
  | cons b s ih =>
      cases t with
      | nil => exact absurd (congrArg List.length h) (by simp)
      | cons c t =>
          have hb := b.toNat_lt
          have hc := c.toNat_lt
          simp only [hexEncode, List.flatMap_cons, List.cons_append, List.nil_append,
            List.cons.injEq] at h
          obtain ⟨hhigh, hlow, hrest⟩ := h
          have hdiv := hexDigit_inj (by omega) (by omega) hhigh
          have hmod := hexDigit_inj (by omega) (by omega) hlow
          rw [ih hrest, UInt8.toNat_inj.1 (show b.toNat = c.toNat by omega)]

theorem isHexChar_of_mem_hexEncode {s : Bytes} {b : UInt8} (h : b ∈ hexEncode s) :
    isHexChar b = true := by
  obtain ⟨c, -, hb⟩ := List.mem_flatMap.1 h
  have hc := c.toNat_lt
  rcases List.mem_pair.1 hb with rfl | rfl
  · exact isHexChar_hexDigit (by omega)
  · exact isHexChar_hexDigit (by omega)

/-! ### SHA-256 -/

namespace Sha256

/-- The round constants. -/
def roundConstants : List UInt32 := [
  0x428a2f98, 0x71374491, 0xb5c0fbcf, 0xe9b5dba5, 0x3956c25b, 0x59f111f1, 0x923f82a4, 0xab1c5ed5,
  0xd807aa98, 0x12835b01, 0x243185be, 0x550c7dc3, 0x72be5d74, 0x80deb1fe, 0x9bdc06a7, 0xc19bf174,
  0xe49b69c1, 0xefbe4786, 0x0fc19dc6, 0x240ca1cc, 0x2de92c6f, 0x4a7484aa, 0x5cb0a9dc, 0x76f988da,
  0x983e5152, 0xa831c66d, 0xb00327c8, 0xbf597fc7, 0xc6e00bf3, 0xd5a79147, 0x06ca6351, 0x14292967,
  0x27b70a85, 0x2e1b2138, 0x4d2c6dfc, 0x53380d13, 0x650a7354, 0x766a0abb, 0x81c2c92e, 0x92722c85,
  0xa2bfe8a1, 0xa81a664b, 0xc24b8b70, 0xc76c51a3, 0xd192e819, 0xd6990624, 0xf40e3585, 0x106aa070,
  0x19a4c116, 0x1e376c08, 0x2748774c, 0x34b0bcb5, 0x391c0cb3, 0x4ed8aa4a, 0x5b9cca4f, 0x682e6ff3,
  0x748f82ee, 0x78a5636f, 0x84c87814, 0x8cc70208, 0x90befffa, 0xa4506ceb, 0xbef9a3f7, 0xc67178f2]

/-- The eight words of the hash state. -/
structure State where
  (a b c d e f g h : UInt32)

/-- The initial hash state. -/
def State.init : State :=
  ⟨0x6a09e667, 0xbb67ae85, 0x3c6ef372, 0xa54ff53a, 0x510e527f, 0x9b05688c, 0x1f83d9ab, 0x5be0cd19⟩

/-- Rotation to the right. -/
def rotr (x n : UInt32) : UInt32 := (x >>> n) ||| (x <<< (32 - n))

/-- The big-endian word of four bytes. -/
def word (s : Bytes) : UInt32 := s.foldl (fun w b => (w <<< 8) ||| b.toUInt32) 0

/-- The first `n` chunks of `m` bytes. -/
def chunks : ℕ → ℕ → Bytes → List Bytes
  | 0, _, _ => []
  | n + 1, m, s => s.take m :: chunks n m (s.drop m)

/-- Extends the message schedule by `n` words. -/
def expand : ℕ → List UInt32 → List UInt32
  | 0, w => w
  | n + 1, w =>
      match w.drop (w.length - 16) with
      | w0 :: w1 :: _ :: _ :: _ :: _ :: _ :: _ :: _ :: w9 :: _ :: _ :: _ :: _ :: w14 :: _ =>
          let s0 := rotr w1 7 ^^^ rotr w1 18 ^^^ (w1 >>> 3)
          let s1 := rotr w14 17 ^^^ rotr w14 19 ^^^ (w14 >>> 10)
          expand n (w ++ [w0 + s0 + w9 + s1])
      | _ => w

/-- One of the 64 rounds, with its constant and its schedule word. -/
def round (s : State) (kw : UInt32 × UInt32) : State :=
  let s1 := rotr s.e 6 ^^^ rotr s.e 11 ^^^ rotr s.e 25
  let ch := (s.e &&& s.f) ^^^ ((~~~s.e) &&& s.g)
  let t1 := s.h + s1 + ch + kw.1 + kw.2
  let s0 := rotr s.a 2 ^^^ rotr s.a 13 ^^^ rotr s.a 22
  let maj := (s.a &&& s.b) ^^^ (s.a &&& s.c) ^^^ (s.b &&& s.c)
  ⟨t1 + (s0 + maj), s.a, s.b, s.c, s.d + t1, s.e, s.f, s.g⟩

/-- The compression of one block of 64 bytes into the hash state. -/
def compress (s : State) (block : Bytes) : State :=
  let r := (roundConstants.zip (expand 48 ((chunks 16 4 block).map word))).foldl round s
  ⟨s.a + r.a, s.b + r.b, s.c + r.c, s.d + r.d, s.e + r.e, s.f + r.f, s.g + r.g, s.h + r.h⟩

/-- The message with the marker bit, the zero padding and its length in bits. -/
def pad (s : Bytes) : Bytes :=
  s ++ 0x80 :: List.replicate ((119 - s.length % 64) % 64) 0 ++
    (List.range 8).map fun i => (s.length * 8 / 256 ^ (7 - i)).toUInt8

/-- The four bytes of a word. -/
def wordBytes (w : UInt32) : Bytes :=
  [(w >>> 24).toUInt8, (w >>> 16).toUInt8, (w >>> 8).toUInt8, w.toUInt8]

/-- **The digest**: 32 bytes. -/
def sum (s : Bytes) : Bytes :=
  let r := (chunks ((pad s).length / 64) 64 (pad s)).foldl compress State.init
  [r.a, r.b, r.c, r.d, r.e, r.f, r.g, r.h].flatMap wordBytes

@[simp] theorem sum_length (s : Bytes) : (sum s).length = 32 := rfl

end Sha256

end Lib
