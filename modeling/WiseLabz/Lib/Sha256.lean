/-
**The digest, on numbers.**

The digest of a concrete text is computed here on natural numbers, each evaluated before it is used,
so that a proof that needs the digest of a text can evaluate it.

Main definitions:

* `Lib.Sha256.force` — the value of a function at an evaluated number;
* `Lib.Sha256.sumNat` — the eight words of a digest.

Main results:

* `Lib.Sha256.sum_eq_sumNat` — **the digest is that of the numbers**.
-/

import WiseLabz.Lib.Bytes

set_option relaxedAutoImplicit false
set_option autoImplicit false

namespace Lib.Sha256

/-- The value of a function at a number, which is evaluated first. -/
def force {α : Type} (n : ℕ) (k : ℕ → α) : α :=
  match n with
  | 0 => k 0
  | m + 1 => k (m + 1)

theorem force_eq {α : Type} (n : ℕ) (k : ℕ → α) : force n k = k n := by
  cases n <;> rfl

def wordSize : ℕ := 4294967296

def rotrNat (x n : ℕ) : ℕ := (x >>> n) ||| ((x <<< (32 - n)) % wordSize)

theorem toNat_rotr (x : UInt32) {n : UInt32} (h : 0 < n.toNat) (h' : n.toNat < 32) :
    (rotr x n).toNat = rotrNat x.toNat n.toNat := by
  have hsub : ((32 : UInt32) - n).toNat = 32 - n.toNat :=
    UInt32.toNat_sub_of_le _ _ (UInt32.le_iff_toNat_le.2 (by simpa using h'.le))
  rw [rotr, UInt32.toNat_or, UInt32.toNat_shiftRight, UInt32.toNat_shiftLeft, hsub,
    Nat.mod_eq_of_lt h', Nat.mod_eq_of_lt (by omega : 32 - n.toNat < 32)]
  rfl

/-! ### The rounds -/

/-- The words of a state. -/
def State.words (s : State) : List ℕ :=
  [s.a.toNat, s.b.toNat, s.c.toNat, s.d.toNat, s.e.toNat, s.f.toNat, s.g.toNat, s.h.toNat]

/-- The rounds with their constants and schedule words. -/
def roundsNat : List ℕ → List ℕ → (a b c d e f g h : ℕ) → List ℕ
  | k :: ks, w :: ws, a, b, c, d, e, f, g, h =>
      force ((h + (rotrNat e 6 ^^^ rotrNat e 11 ^^^ rotrNat e 25) +
        ((e &&& f) ^^^ ((wordSize - 1 - e) &&& g)) + k + w) % wordSize) fun t =>
      force ((t + ((rotrNat a 2 ^^^ rotrNat a 13 ^^^ rotrNat a 22) +
        ((a &&& b) ^^^ (a &&& c) ^^^ (b &&& c)))) % wordSize) fun a' =>
      force ((d + t) % wordSize) fun e' => roundsNat ks ws a' a b c e' e f g
  | _, _, a, b, c, d, e, f, g, h => [a, b, c, d, e, f, g, h]

theorem words_round (s : State) (k w : UInt32) (t : ℕ)
    (ht : t = (s.h.toNat + (rotrNat s.e.toNat 6 ^^^ rotrNat s.e.toNat 11 ^^^
      rotrNat s.e.toNat 25) + ((s.e.toNat &&& s.f.toNat) ^^^
        ((wordSize - 1 - s.e.toNat) &&& s.g.toNat)) + k.toNat + w.toNat) % wordSize) :
    (round s (k, w)).words =
      [(t + ((rotrNat s.a.toNat 2 ^^^ rotrNat s.a.toNat 13 ^^^ rotrNat s.a.toNat 22) +
        ((s.a.toNat &&& s.b.toNat) ^^^ (s.a.toNat &&& s.c.toNat) ^^^
          (s.b.toNat &&& s.c.toNat)))) % wordSize,
        s.a.toNat, s.b.toNat, s.c.toNat, (s.d.toNat + t) % wordSize,
        s.e.toNat, s.f.toNat, s.g.toNat] := by
  have hrotr : ∀ (x n : UInt32), 0 < n.toNat → n.toNat < 32 →
      (rotr x n).toNat = rotrNat x.toNat n.toNat := fun x n h h' => toNat_rotr x h h'
  subst ht
  simp only [round, State.words, UInt32.toNat_add, UInt32.toNat_xor, UInt32.toNat_and,
    UInt32.toNat_not, hrotr _ 6 (by decide) (by decide), hrotr _ 11 (by decide) (by decide),
    hrotr _ 25 (by decide) (by decide), hrotr _ 2 (by decide) (by decide),
    hrotr _ 13 (by decide) (by decide), hrotr _ 22 (by decide) (by decide)]
  simp [wordSize, UInt32.size, Nat.add_mod]

theorem words_rounds (ks ws : List UInt32) (s : State) :
    ((ks.zip ws).foldl round s).words =
      roundsNat (ks.map UInt32.toNat) (ws.map UInt32.toNat) s.a.toNat s.b.toNat s.c.toNat
        s.d.toNat s.e.toNat s.f.toNat s.g.toNat s.h.toNat := by
  induction ks generalizing ws s with
  | nil => rfl
  | cons k ks ih =>
      cases ws with
      | nil => rfl
      | cons w ws =>
          have hround := words_round s k w _ rfl
          rw [List.zip_cons_cons, List.foldl_cons, ih, List.map_cons, List.map_cons, roundsNat,
            force_eq, force_eq, force_eq]
          rw [State.words] at hround
          simp only [List.cons.injEq, and_true] at hround
          obtain ⟨ha, hb, hc, hd, he, hf, hg, hh⟩ := hround
          rw [ha, hb, hc, hd, he, hf, hg, hh]

/-! ### The schedule -/

/-- Extends the schedule by `n` words, the last word first. -/
def expandNat : ℕ → List ℕ → List ℕ
  | 0, r => r
  | n + 1, r =>
      let w0 := r.getD 15 0
      let w1 := r.getD 14 0
      let w9 := r.getD 6 0
      let w14 := r.getD 1 0
      force ((w0 + (rotrNat w1 7 ^^^ rotrNat w1 18 ^^^ (w1 >>> 3)) + w9 +
        (rotrNat w14 17 ^^^ rotrNat w14 19 ^^^ (w14 >>> 10))) % wordSize) fun x =>
      expandNat n (x :: r)

/-- The next word of the schedule. -/
def nextWord (w0 w1 w9 w14 : UInt32) : UInt32 :=
  w0 + (rotr w1 7 ^^^ rotr w1 18 ^^^ (w1 >>> 3)) + w9 +
    (rotr w14 17 ^^^ rotr w14 19 ^^^ (w14 >>> 10))

theorem toNat_nextWord (w0 w1 w9 w14 : UInt32) : (nextWord w0 w1 w9 w14).toNat =
    (w0.toNat + (rotrNat w1.toNat 7 ^^^ rotrNat w1.toNat 18 ^^^ (w1.toNat >>> 3)) + w9.toNat +
      (rotrNat w14.toNat 17 ^^^ rotrNat w14.toNat 19 ^^^ (w14.toNat >>> 10))) % wordSize := by
  have hrotr : ∀ (x n : UInt32), 0 < n.toNat → n.toNat < 32 →
      (rotr x n).toNat = rotrNat x.toNat n.toNat := fun x n h h' => toNat_rotr x h h'
  simp only [nextWord, UInt32.toNat_add, UInt32.toNat_xor, UInt32.toNat_shiftRight,
    hrotr _ 7 (by decide) (by decide), hrotr _ 18 (by decide) (by decide),
    hrotr _ 17 (by decide) (by decide), hrotr _ 19 (by decide) (by decide)]
  simp [wordSize, Nat.add_mod]

theorem getD_drop (w : List UInt32) (m i : ℕ) : (w.drop m).getD i 0 = w.getD (m + i) 0 := by
  rw [List.getD_eq_getElem?_getD, List.getD_eq_getElem?_getD, List.getElem?_drop]

theorem expand_succ (n : ℕ) {w : List UInt32} (h : 16 ≤ w.length) :
    expand (n + 1) w = expand n (w ++ [nextWord (w.getD (w.length - 16) 0)
      (w.getD (w.length - 16 + 1) 0) (w.getD (w.length - 16 + 9) 0)
      (w.getD (w.length - 16 + 14) 0)]) := by
  have hlen : (w.drop (w.length - 16)).length = 16 := by
    rw [List.length_drop]
    omega
  rw [← getD_drop, ← getD_drop, ← getD_drop, ← Nat.add_zero (w.length - 16), ← getD_drop,
    Nat.add_zero]
  conv_lhs => whnf
  generalize w.drop (w.length - 16) = l at hlen ⊢
  match l, hlen with
  | [x0, x1, x2, x3, x4, x5, x6, x7, x8, x9, x10, x11, x12, x13, x14, x15], _ => rfl

theorem getD_reverse (w : List ℕ) {i : ℕ} (h : i < w.length) :
    w.reverse.getD i 0 = w.getD (w.length - 1 - i) 0 := by
  rw [List.getD_eq_getElem?_getD, List.getD_eq_getElem?_getD, List.getElem?_reverse h]

theorem getD_map_toNat (w : List UInt32) (i : ℕ) :
    (w.map UInt32.toNat).getD i 0 = (w.getD i 0).toNat := by
  rw [List.getD_eq_getElem?_getD, List.getD_eq_getElem?_getD, List.getElem?_map]
  cases w[i]? <;> rfl

theorem map_expand (n : ℕ) {w : List UInt32} (h : 16 ≤ w.length) :
    (expand n w).map UInt32.toNat = (expandNat n (w.map UInt32.toNat).reverse).reverse := by
  induction n generalizing w with
  | zero => exact (List.reverse_reverse _).symm
  | succ n ih =>
      have hget : ∀ i, i < 16 → (w.map UInt32.toNat).reverse.getD (15 - i) 0 =
          (w.getD (w.length - 16 + i) 0).toNat := by
        intro i hi
        rw [getD_reverse _ (by rw [List.length_map]; omega), getD_map_toNat, List.length_map]
        congr 2
        omega
      rw [expand_succ n h, ih (by rw [List.length_append]; omega), expandNat, force_eq,
        List.map_append, List.reverse_append, List.map_singleton, List.reverse_singleton,
        List.singleton_append, toNat_nextWord, ← hget 1 (by decide), ← hget 9 (by decide),
        ← hget 14 (by decide)]
      have hfirst := hget 0 (by decide)
      rw [Nat.add_zero] at hfirst
      rw [← hfirst]

/-! ### The digest -/

/-- The numbers of a list, evaluated one after the other. -/
def forceList {α : Type} : List ℕ → (List ℕ → α) → α
  | [], k => k []
  | x :: l, k => force x fun x => forceList l fun l => k (x :: l)

theorem forceList_eq {α : Type} (l : List ℕ) (k : List ℕ → α) : forceList l k = k l := by
  induction l generalizing k with
  | nil => rfl
  | cons x l ih => rw [forceList, force_eq, ih]

/-- The bytes of a text, evaluated one after the other. -/
def forceBytes {α : Type} : Bytes → (Bytes → α) → α
  | [], k => k []
  | b :: s, k => force b.toNat fun n => forceBytes s fun s => k (UInt8.ofNat n :: s)

theorem forceBytes_eq {α : Type} (s : Bytes) (k : Bytes → α) : forceBytes s k = k s := by
  induction s generalizing k with
  | nil => rfl
  | cons b s ih => rw [forceBytes, force_eq, ih, UInt8.ofNat_toNat]

/-- The big-endian word of four bytes. -/
def wordNat (s : Bytes) : ℕ := s.foldl (fun w b => ((w <<< 8) % wordSize) ||| b.toNat) 0

theorem toNat_word (s : Bytes) : (word s).toNat = wordNat s := by
  suffices h : ∀ w : UInt32, (s.foldl (fun (w : UInt32) b => (w <<< 8) ||| b.toUInt32) w).toNat =
      s.foldl (fun w b => ((w <<< 8) % wordSize) ||| b.toNat) w.toNat from h 0
  induction s with
  | nil => exact fun _ => rfl
  | cons b s ih =>
      intro w
      rw [List.foldl_cons, List.foldl_cons, ih, UInt32.toNat_or, UInt32.toNat_shiftLeft,
        UInt8.toNat_toUInt32]
      rfl

/-- The round constants. -/
def roundNumbers : List ℕ := roundConstants.map UInt32.toNat

/-- The compression of one block into the words of the state. -/
def compressNat (constants : List ℕ) (state : List ℕ) (block : Bytes) : List ℕ :=
  forceList ((chunks 16 4 block).map wordNat) fun ws =>
    match state with
    | [a, b, c, d, e, f, g, h] =>
        forceList (List.zipWith (fun x y => (x + y) % wordSize) [a, b, c, d, e, f, g, h]
          (roundsNat constants (expandNat 48 ws.reverse).reverse a b c d e f g h)) id
    | _ => []

theorem chunks_length (n m : ℕ) (s : Bytes) : (chunks n m s).length = n := by
  induction n generalizing s with
  | zero => rfl
  | succ n ih => rw [chunks, List.length_cons, ih]

theorem words_compress (s : State) (block : Bytes) :
    (compress s block).words = compressNat roundNumbers s.words block := by
  have hwords : ((chunks 16 4 block).map word).map UInt32.toNat =
      (chunks 16 4 block).map wordNat := by
    rw [List.map_map]
    exact List.map_congr_left fun b _ => toNat_word b
  have hexpand : (expand 48 ((chunks 16 4 block).map word)).map UInt32.toNat =
      (expandNat 48 ((chunks 16 4 block).map wordNat).reverse).reverse := by
    rw [map_expand 48 (by rw [List.length_map, chunks_length]), hwords]
  have hrounds := words_rounds roundConstants (expand 48 ((chunks 16 4 block).map word)) s
  rw [hexpand] at hrounds
  rw [compressNat, forceList_eq]
  show _ = forceList (List.zipWith (fun x y => (x + y) % wordSize) s.words
    (roundsNat _ _ _ _ _ _ _ _ _ _)) id
  rw [forceList_eq, id, roundNumbers, ← hrounds]
  simp [compress, State.words, wordSize]

/-- The words of the digest. -/
def sumNat (s : Bytes) : List ℕ :=
  forceList roundNumbers fun constants =>
    forceBytes (pad s) fun m =>
      (chunks (m.length / 64) 64 m).foldl (compressNat constants) State.init.words

/-- **The digest is that of the numbers.** -/
theorem sum_eq_sumNat (s : Bytes) :
    sum s = (sumNat s).flatMap fun n => wordBytes (UInt32.ofNat n) := by
  have hfold : ∀ (blocks : List Bytes) (st : State), (blocks.foldl compress st).words =
      blocks.foldl (compressNat roundNumbers) st.words := by
    intro blocks
    induction blocks with
    | nil => exact fun _ => rfl
    | cons block blocks ih =>
        intro st
        rw [List.foldl_cons, List.foldl_cons, ih, words_compress]
  rw [sumNat, forceList_eq, forceBytes_eq, ← hfold, sum]
  simp [State.words]

-- The digest of `abc`, as the standard gives it.
set_option maxRecDepth 100000 in
example : (hexEncode (sum (bytes "abc"))).take 12 = bytes "ba7816bf8f01" := by
  rw [sum_eq_sumNat]
  decide

end Lib.Sha256
