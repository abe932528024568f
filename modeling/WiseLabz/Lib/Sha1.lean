/-
**SHA-1.**

The fingerprint of a byte string, over the padding and the words of `WiseLabz/Lib/Bytes.lean`: each
block is expanded to 80 words, which are mixed into five state words.

Main definitions:

* `Lib.Sha1.sum` — the digest of a byte string;
* `Lib.Sha1.sumNat` — the five words of a digest, on natural numbers.

Main results:

* `Lib.Sha1.sum_eq_sumNat` — **the digest is that of the numbers**.
-/

import WiseLabz.Lib.Sha256

set_option relaxedAutoImplicit false
set_option autoImplicit false

namespace Lib.Sha1

/-- The five words of the hash state. -/
structure State where
  (a b c d e : UInt32)

/-- The initial hash state. -/
def State.init : State := ⟨0x67452301, 0xefcdab89, 0x98badcfe, 0x10325476, 0xc3d2e1f0⟩

/-- Rotation to the left. -/
def rotl (x n : UInt32) : UInt32 := (x <<< n) ||| (x >>> (32 - n))

/-- Extends the message schedule by `n` words. -/
def expand : ℕ → List UInt32 → List UInt32
  | 0, w => w
  | n + 1, w =>
      match w.drop (w.length - 16) with
      | w0 :: _ :: w2 :: _ :: _ :: _ :: _ :: _ :: w8 :: _ :: _ :: _ :: _ :: w13 :: _ =>
          expand n (w ++ [rotl (w13 ^^^ w8 ^^^ w2 ^^^ w0) 1])
      | _ => w

/-- The function and the constant of round `t`. -/
def mix (t : ℕ) (s : State) : UInt32 :=
  if t < 20 then ((s.b &&& s.c) ||| ((~~~s.b) &&& s.d)) + 0x5a827999
  else if t < 40 then (s.b ^^^ s.c ^^^ s.d) + 0x6ed9eba1
  else if t < 60 then ((s.b &&& s.c) ||| (s.b &&& s.d) ||| (s.c &&& s.d)) + 0x8f1bbcdc
  else (s.b ^^^ s.c ^^^ s.d) + 0xca62c1d6

/-- One of the 80 rounds, with its number and its schedule word. -/
def round (s : State) (w : UInt32 × ℕ) : State :=
  ⟨rotl s.a 5 + mix w.2 s + s.e + w.1, s.a, rotl s.b 30, s.c, s.d⟩

/-- The compression of one block of 64 bytes into the hash state. -/
def compress (s : State) (block : Bytes) : State :=
  let r := (expand 64 ((Sha256.chunks 16 4 block).map Sha256.word)).zipIdx.foldl round s
  ⟨s.a + r.a, s.b + r.b, s.c + r.c, s.d + r.d, s.e + r.e⟩

/-- **The digest**: 20 bytes. -/
def sum (s : Bytes) : Bytes :=
  let m := Sha256.pad s
  let r := (Sha256.chunks (m.length / 64) 64 m).foldl compress State.init
  [r.a, r.b, r.c, r.d, r.e].flatMap Sha256.wordBytes

/-! ### The digest, on numbers -/

open Sha256 (force force_eq forceList forceList_eq forceBytes forceBytes_eq wordNat wordSize)

def rotlNat (x n : ℕ) : ℕ := ((x <<< n) % wordSize) ||| (x >>> (32 - n))

theorem toNat_rotl (x : UInt32) {n : UInt32} (h : 0 < n.toNat) (h' : n.toNat < 32) :
    (rotl x n).toNat = rotlNat x.toNat n.toNat := by
  have hsub : ((32 : UInt32) - n).toNat = 32 - n.toNat :=
    UInt32.toNat_sub_of_le _ _ (UInt32.le_iff_toNat_le.2 (by simpa using h'.le))
  rw [rotl, UInt32.toNat_or, UInt32.toNat_shiftRight, UInt32.toNat_shiftLeft, hsub,
    Nat.mod_eq_of_lt h', Nat.mod_eq_of_lt (by omega : 32 - n.toNat < 32)]
  rfl

def mixNat (t b c d : ℕ) : ℕ :=
  if t < 20 then ((b &&& c) ||| ((wordSize - 1 - b) &&& d)) + 0x5a827999
  else if t < 40 then (b ^^^ c ^^^ d) + 0x6ed9eba1
  else if t < 60 then ((b &&& c) ||| (b &&& d) ||| (c &&& d)) + 0x8f1bbcdc
  else (b ^^^ c ^^^ d) + 0xca62c1d6

theorem toNat_mix (t : ℕ) (s : State) :
    (mix t s).toNat = mixNat t s.b.toNat s.c.toNat s.d.toNat % wordSize := by
  unfold mix mixNat
  split_ifs <;> simp [wordSize]

/-- The rounds from round `t` on, with their schedule words. -/
def roundsNat : List ℕ → (t a b c d e : ℕ) → List ℕ
  | [], _, a, b, c, d, e => [a, b, c, d, e]
  | w :: ws, t, a, b, c, d, e =>
      force ((rotlNat a 5 + mixNat t b c d + e + w) % wordSize) fun a' =>
      force (rotlNat b 30) fun c' =>
      force (t + 1) fun t' => roundsNat ws t' a' a c' c d

/-- The words of a state. -/
def State.words (s : State) : List ℕ :=
  [s.a.toNat, s.b.toNat, s.c.toNat, s.d.toNat, s.e.toNat]

theorem words_round (s : State) (w : UInt32) (t : ℕ) :
    (round s (w, t)).words =
      [(rotlNat s.a.toNat 5 + mixNat t s.b.toNat s.c.toNat s.d.toNat + s.e.toNat + w.toNat) %
        wordSize, s.a.toNat, rotlNat s.b.toNat 30, s.c.toNat, s.d.toNat] := by
  have hrotl : ∀ (x n : UInt32), 0 < n.toNat → n.toNat < 32 →
      (rotl x n).toNat = rotlNat x.toNat n.toNat := fun x n h h' => toNat_rotl x h h'
  simp only [round, State.words, UInt32.toNat_add, toNat_mix, hrotl _ 5 (by decide) (by decide),
    hrotl _ 30 (by decide) (by decide)]
  simp [wordSize, Nat.add_mod]

theorem words_rounds (ws : List UInt32) (t : ℕ) (s : State) :
    ((ws.zipIdx t).foldl round s).words =
      roundsNat (ws.map UInt32.toNat) t s.a.toNat s.b.toNat s.c.toNat s.d.toNat s.e.toNat := by
  induction ws generalizing t s with
  | nil => rfl
  | cons w ws ih =>
      have hround := words_round s w t
      rw [List.zipIdx_cons, List.foldl_cons, ih, List.map_cons, roundsNat, force_eq, force_eq,
        force_eq]
      rw [State.words] at hround
      simp only [List.cons.injEq, and_true] at hround
      obtain ⟨ha, hb, hc, hd, he⟩ := hround
      rw [ha, hb, hc, hd, he]

/-- Extends the schedule by `n` words, the last word first. -/
def expandNat : ℕ → List ℕ → List ℕ
  | 0, r => r
  | n + 1, r =>
      force (rotlNat (r.getD 2 0 ^^^ r.getD 7 0 ^^^ r.getD 13 0 ^^^ r.getD 15 0) 1) fun x =>
      expandNat n (x :: r)

theorem expand_succ (n : ℕ) {w : List UInt32} (h : 16 ≤ w.length) :
    expand (n + 1) w = expand n (w ++ [rotl (w.getD (w.length - 16 + 13) 0 ^^^
      w.getD (w.length - 16 + 8) 0 ^^^ w.getD (w.length - 16 + 2) 0 ^^^
        w.getD (w.length - 16 + 0) 0) 1]) := by
  have hlen : (w.drop (w.length - 16)).length = 16 := by
    rw [List.length_drop]
    omega
  rw [← Sha256.getD_drop, ← Sha256.getD_drop, ← Sha256.getD_drop, ← Sha256.getD_drop]
  conv_lhs => whnf
  generalize w.drop (w.length - 16) = l at hlen ⊢
  match l, hlen with
  | [x0, x1, x2, x3, x4, x5, x6, x7, x8, x9, x10, x11, x12, x13, x14, x15], _ => rfl

theorem map_expand (n : ℕ) {w : List UInt32} (h : 16 ≤ w.length) :
    (expand n w).map UInt32.toNat = (expandNat n (w.map UInt32.toNat).reverse).reverse := by
  induction n generalizing w with
  | zero => exact (List.reverse_reverse _).symm
  | succ n ih =>
      have hget : ∀ i, i < 16 → (w.map UInt32.toNat).reverse.getD (15 - i) 0 =
          (w.getD (w.length - 16 + i) 0).toNat := by
        intro i hi
        rw [Sha256.getD_reverse _ (by rw [List.length_map]; omega), Sha256.getD_map_toNat,
          List.length_map]
        congr 2
        omega
      rw [expand_succ n h, ih (by rw [List.length_append]; omega), expandNat, force_eq,
        List.map_append, List.reverse_append, List.map_singleton, List.reverse_singleton,
        List.singleton_append, toNat_rotl _ (by decide) (by decide), UInt32.toNat_xor,
        UInt32.toNat_xor, UInt32.toNat_xor, ← hget 13 (by decide), ← hget 8 (by decide),
        ← hget 2 (by decide), ← hget 0 (by decide)]
      rfl

/-- The compression of one block into the words of the state. -/
def compressNat (state : List ℕ) (block : Bytes) : List ℕ :=
  forceList ((Sha256.chunks 16 4 block).map wordNat) fun ws =>
    match state with
    | [a, b, c, d, e] =>
        forceList (List.zipWith (fun x y => (x + y) % wordSize) [a, b, c, d, e]
          (roundsNat (expandNat 64 ws.reverse).reverse 0 a b c d e)) id
    | _ => []

theorem words_compress (s : State) (block : Bytes) :
    (compress s block).words = compressNat s.words block := by
  have hwords : ((Sha256.chunks 16 4 block).map Sha256.word).map UInt32.toNat =
      (Sha256.chunks 16 4 block).map wordNat := by
    rw [List.map_map]
    exact List.map_congr_left fun b _ => Sha256.toNat_word b
  have hexpand : (expand 64 ((Sha256.chunks 16 4 block).map Sha256.word)).map UInt32.toNat =
      (expandNat 64 ((Sha256.chunks 16 4 block).map wordNat).reverse).reverse := by
    rw [map_expand 64 (by rw [List.length_map, Sha256.chunks_length]), hwords]
  have hrounds := words_rounds (expand 64 ((Sha256.chunks 16 4 block).map Sha256.word)) 0 s
  rw [hexpand] at hrounds
  rw [compressNat, forceList_eq]
  show _ = forceList (List.zipWith (fun x y => (x + y) % wordSize) s.words
    (roundsNat _ _ _ _ _ _ _)) id
  rw [forceList_eq, id, ← hrounds]
  simp [compress, State.words, wordSize]

/-- The words of the digest. -/
def sumNat (s : Bytes) : List ℕ :=
  forceBytes (Sha256.pad s) fun m =>
    (Sha256.chunks (m.length / 64) 64 m).foldl compressNat State.init.words

/-- **The digest is that of the numbers.** -/
theorem sum_eq_sumNat (s : Bytes) :
    sum s = (sumNat s).flatMap fun n => Sha256.wordBytes (UInt32.ofNat n) := by
  have hfold : ∀ (blocks : List Bytes) (st : State), (blocks.foldl compress st).words =
      blocks.foldl compressNat st.words := by
    intro blocks
    induction blocks with
    | nil => exact fun _ => rfl
    | cons block blocks ih =>
        intro st
        rw [List.foldl_cons, List.foldl_cons, ih, words_compress]
  rw [sumNat, forceBytes_eq, ← hfold, sum]
  simp [State.words]

-- The digest of `abc`, as the standard gives it.
set_option maxRecDepth 100000 in
example : (hexEncode (sum (bytes "abc"))).take 12 = bytes "a9993e364706" := by
  rw [sum_eq_sumNat]
  decide

end Lib.Sha1
