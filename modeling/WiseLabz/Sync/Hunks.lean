/-
**Unified hunks.**

The lines of an edit script are cut into hunks: each starts three lines before a change and ends
three lines after the last of the changes that are so close that their contexts meet.  A header
counts the lines of its hunk, and those before it.  For two texts that are not empty the hunks are
those of a unified diff.  When one of the texts is empty its side of the one hunk is, too, and the
header names line 1 where the convention is the line before.

Main definitions:

* `Sync.Diff`, `Sync.LineScript` — edit scripts, and what is relied on of the package that computes
  them;
* `Sync.hunks`, `Sync.unifiedHunks` — **the hunks**, and their text;
* `Sync.Patches` — hunks that turn some lines into others, with headers and contexts as they should
  be;
* `Sync.applyHunks` — applying hunks to lines;
* `Sync.readHunks` — reading the text of hunks.

Main results:

* `Sync.scanEnd_spec` — where a hunk ends;
* `Sync.Patches.apply` — such hunks applied to the old lines give the new ones;
* `Sync.hunksFrom_patches` — the loop over the lines;
* `Sync.readHunks_unifiedHunks` — the text of the hunks is read back;
* `Sync.unifiedHunks_valid_iff` — **the hunks are valid exactly when no text is empty**, or both are
  the same.
-/

import WiseLabz.Lib.Bytes
import Mathlib.Data.List.TakeDrop
import Mathlib.Order.Nat

set_option relaxedAutoImplicit false
set_option autoImplicit false

namespace WiseLabz.Sync

open Lib

/-! ### Edit scripts -/

/-- The operations of an edit script. -/
inductive Operation
  | equal | delete | insert
  deriving DecidableEq, Repr

/-- A piece of an edit script. -/
structure Diff where
  type : Operation
  text : Bytes
  deriving DecidableEq, Repr

/-- A line of the output; its text ends with a newline, unless it is the last of its file. -/
structure Line where
  type : Operation
  text : Bytes
  deriving DecidableEq, Repr

/-- The byte that a line starts with. -/
def Operation.mark : Operation → UInt8
  | .equal => 32
  | .delete => 45
  | .insert => 43

/-- `strings.SplitAfter(text, "\n")` -/
def splitAfter : Bytes → List Bytes
  | [] => [[]]
  | b :: s =>
      if b = 10 then [b] :: splitAfter s
      else
        match splitAfter s with
        | [] => [[b]]
        | l :: ls => (b :: l) :: ls

/-- The lines of a text, each with its newline. -/
def textLines (text : Bytes) : List Bytes := (splitAfter text).filter (· ≠ [])

/-- The lines of an edit script. -/
def scriptLines (diffs : List Diff) : List Line :=
  diffs.flatMap fun d => (textLines d.text).map (Line.mk d.type)

/-- The lines that the old text has. -/
def oldTexts (ls : List Line) : List Bytes := (ls.filter (·.type ≠ .insert)).map Line.text

/-- The lines that the new text has. -/
def newTexts (ls : List Line) : List Bytes := (ls.filter (·.type ≠ .delete)).map Line.text

/-- **What is relied on of the diff package**: the pieces consist of lines, those that are equal or
deleted are the lines of the old text, and those that are equal or inserted those of the new one. -/
structure LineScript (old newer : Bytes) (diffs : List Diff) : Prop where
  old_lines : (diffs.filter (·.type ≠ .insert)).flatMap (fun d => textLines d.text) = textLines old
  new_lines : (diffs.filter (·.type ≠ .delete)).flatMap (fun d => textLines d.text) = textLines newer

/-! ### Hunks -/

/-- A hunk with the numbers of its header. -/
structure Hunk where
  oldStart : ℕ
  oldCount : ℕ
  newStart : ℕ
  newCount : ℕ
  lines : List Line
  deriving DecidableEq, Repr

/-- `%d` -/
def numberText (n : ℕ) : Bytes := (Nat.toDigits 10 n).map fun c => c.toNat.toUInt8

def Line.output (l : Line) : Bytes :=
  l.type.mark :: (l.text ++
    if l.text.getLast? = some 10 then [] else 10 :: (bytes "\\ No newline at end of file" ++ [10]))

def Hunk.text (h : Hunk) : Bytes :=
  bytes "@@ -" ++ numberText h.oldStart ++ bytes "," ++ numberText h.oldCount ++ bytes " +" ++
    numberText h.newStart ++ bytes "," ++ numberText h.newCount ++ bytes " @@" ++ [10] ++
    h.lines.flatMap Line.output

/-- The line at a position is a change. -/
def changedAt (all : List Line) (j : ℕ) : Bool := all[j]?.any fun l => l.type ≠ .equal

/-- The position of the next change. -/
def nextChange (all : List Line) (i : ℕ) : ℕ :=
  i + (all.drop i).findIdx fun l => l.type ≠ .equal

/-- Where the hunk with the change at `i` ends: three lines after the last change that is close
enough.  The end moves while the lines are scanned. -/
def scanEnd (all : List Line) (i : ℕ) : ℕ :=
  (List.range' (i + 1) (all.length - (i + 1))).foldl
    (fun stop j => if changedAt all j ∧ j ≤ stop + 3 then min (j + 4) all.length else stop)
    (min (i + 4) all.length)

/-- The lines from a position up to another. -/
def segment (all : List Line) (start stop : ℕ) : List Line := (all.drop start).take (stop - start)

/-- The hunk with these lines. -/
def hunkAt (all : List Line) (start stop : ℕ) : Hunk where
  oldStart := 1 + (all.take start).countP (·.type ≠ .insert)
  oldCount := (segment all start stop).countP (·.type ≠ .insert)
  newStart := 1 + (all.take start).countP (·.type ≠ .delete)
  newCount := (segment all start stop).countP (·.type ≠ .delete)
  lines := segment all start stop

/-- The loop that cuts the lines into hunks; each round moves on, and `fuel` bounds the rounds. -/
def hunksFrom (all : List Line) : ℕ → ℕ → List Hunk
  | 0, _ => []
  | fuel + 1, i =>
      let i := nextChange all i
      if all.length ≤ i then []
      else hunkAt all (i - 3) (scanEnd all i) :: hunksFrom all fuel (scanEnd all i)

/-- **The hunks**; `diff` computes the edit script of two texts. -/
def hunks (diff : Bytes → Bytes → List Diff) (old newer : Bytes) : List Hunk :=
  if old = newer then []
  else
    let all := scriptLines (diff old newer)
    hunksFrom all (all.length + 1) 0

/-- **The text of the hunks.** -/
def unifiedHunks (diff : Bytes → Bytes → List Diff) (old newer : Bytes) : Bytes :=
  (hunks diff old newer).flatMap Hunk.text

/-! ### Unified diffs -/

/-- The line number of a header: the first line of the hunk, or the line before if it has none. -/
def startOf (before count : ℕ) : ℕ := if count = 0 then before else before + 1

/-- The header counts the lines, the old and the new text have `o` and `n` lines before it, and the
changes have three lines of context unless the texts begin or end there. -/
structure Hunk.Fits (h : Hunk) (o n : ℕ) (atEnd : Prop) : Prop where
  oldCount : h.oldCount = (oldTexts h.lines).length
  newCount : h.newCount = (newTexts h.lines).length
  oldStart : h.oldStart = startOf o h.oldCount
  newStart : h.newStart = startOf n h.newCount
  context : ∃ before changes after, h.lines = before ++ (changes ++ after) ∧
    (∀ l ∈ before, l.type = .equal) ∧ (∀ l ∈ after, l.type = .equal) ∧
    (∃ l, changes.head? = some l ∧ l.type ≠ .equal) ∧
    (∃ l, changes.getLast? = some l ∧ l.type ≠ .equal) ∧
    before.length ≤ 3 ∧ after.length ≤ 3 ∧
    (before.length < 3 → o = 0 ∧ n = 0) ∧ (after.length < 3 → atEnd)

/-- **The hunks turn some lines into others**, in order and without overlap; `o` and `n` lines of
the two texts come before these. -/
inductive Patches : ℕ → ℕ → List Hunk → List Bytes → List Bytes → Prop
  | done (o n : ℕ) (rest : List Bytes) : Patches o n [] rest rest
  | hunk {o n : ℕ} {h : Hunk} {hs : List Hunk} {old new : List Bytes} (gap : List Bytes)
      (fits : h.Fits (o + gap.length) (n + gap.length) (old = [] ∧ new = []))
      (rest : Patches (o + gap.length + (oldTexts h.lines).length)
        (n + gap.length + (newTexts h.lines).length) hs old new) :
      Patches o n (h :: hs) (gap ++ (oldTexts h.lines ++ old)) (gap ++ (newTexts h.lines ++ new))

/-- The number of old lines before a hunk, by its header. -/
def Hunk.before (h : Hunk) : ℕ := if h.oldCount = 0 then h.oldStart else h.oldStart - 1

/-- **The lines after the hunks are applied**, from line `o` of the old text on; nothing if a hunk
does not match. -/
def applyHunks : ℕ → List Hunk → List Bytes → Option (List Bytes)
  | _, [], rest => some rest
  | o, h :: hs, rest =>
      if o ≤ h.before ∧ (rest.drop (h.before - o)).take h.oldCount = oldTexts h.lines then
        (applyHunks (h.before + h.oldCount) hs (rest.drop (h.before - o + h.oldCount))).map
          fun applied => rest.take (h.before - o) ++ (newTexts h.lines ++ applied)
      else none

/-- **Applying such hunks to the old lines gives the new ones.** -/
theorem Patches.apply {o n : ℕ} {hs : List Hunk} {old new : List Bytes}
    (h : Patches o n hs old new) : applyHunks o hs old = some new := by
  induction h with
  | done o n rest => rfl
  | @hunk o n h hs old new gap fits rest ih =>
      have hbefore : h.before = o + gap.length := by
        rw [Hunk.before, fits.oldStart, startOf]
        split
        · rfl
        · rfl
      have hgap : h.before - o = gap.length := by omega
      rw [applyHunks, hgap, List.drop_left, fits.oldCount, List.take_left, if_pos ⟨by omega, rfl⟩,
        ← List.drop_drop, List.drop_left, List.drop_left, hbefore, ih, Option.map_some,
        List.take_left]

/-! ### Lines -/

section Lines

variable {all : List Line}

theorem countP_old (ls : List Line) : ls.countP (·.type ≠ .insert) = (oldTexts ls).length := by
  rw [oldTexts, List.length_map, List.countP_eq_length_filter]

theorem countP_new (ls : List Line) : ls.countP (·.type ≠ .delete) = (newTexts ls).length := by
  rw [newTexts, List.length_map, List.countP_eq_length_filter]

theorem oldTexts_append (ls ls' : List Line) : oldTexts (ls ++ ls') = oldTexts ls ++ oldTexts ls' := by
  rw [oldTexts, List.filter_append, List.map_append]
  rfl

theorem newTexts_append (ls ls' : List Line) : newTexts (ls ++ ls') = newTexts ls ++ newTexts ls' := by
  rw [newTexts, List.filter_append, List.map_append]
  rfl

/-- Both texts have the lines that are equal. -/
theorem texts_of_equal {ls : List Line} (h : ∀ l ∈ ls, l.type = .equal) :
    oldTexts ls = ls.map Line.text ∧ newTexts ls = ls.map Line.text := by
  have hfilter : ∀ op : Operation, op ≠ .equal → ls.filter (·.type ≠ op) = ls := by
    intro op hop
    refine List.filter_eq_self.2 fun l hl => ?_
    rw [h l hl]
    simpa using hop.symm
  rw [oldTexts, newTexts, hfilter .insert (by decide), hfilter .delete (by decide)]
  exact ⟨rfl, rfl⟩

theorem changedAt_eq_true {j : ℕ} :
    changedAt all j = true ↔ ∃ l, all[j]? = some l ∧ l.type ≠ .equal := by
  rw [changedAt, Option.any_eq_true]
  simp

theorem lt_of_changedAt {j : ℕ} (h : changedAt all j = true) : j < all.length := by
  obtain ⟨l, hl, -⟩ := changedAt_eq_true.1 h
  exact (List.getElem?_eq_some_iff.1 hl).1

/-- A part of the lines without a change. -/
theorem segment_equal {start stop : ℕ}
    (h : ∀ j, start ≤ j → j < stop → changedAt all j = false) :
    ∀ l ∈ segment all start stop, l.type = .equal := by
  intro l hl
  obtain ⟨m, hm, hget⟩ := List.mem_iff_getElem.1 hl
  have hmlen := hm
  rw [segment, List.length_take] at hmlen
  have hat : all[start + m]? = some l := by
    have hsome := List.getElem?_eq_some_iff.2 ⟨hm, hget⟩
    rw [segment, List.getElem?_take_of_lt (by omega), List.getElem?_drop] at hsome
    exact hsome
  by_contra hne
  have hchange := changedAt_eq_true.2 ⟨l, hat, hne⟩
  rw [h (start + m) (by omega) (by omega)] at hchange
  cases hchange

theorem segment_length {start stop : ℕ} (hstop : stop ≤ all.length) :
    (segment all start stop).length = stop - start := by
  rw [segment, List.length_take, List.length_drop]
  omega

theorem segment_append {a b c : ℕ} (hab : a ≤ b) (hbc : b ≤ c) :
    segment all a c = segment all a b ++ segment all b c := by
  have hdrop : all.drop b = (all.drop a).drop (b - a) := by
    rw [List.drop_drop, Nat.add_sub_cancel' hab]
  rw [segment, segment, segment, hdrop, show c - a = (b - a) + (c - b) by omega, List.take_add]

theorem drop_eq_segment {a b : ℕ} (hab : a ≤ b) :
    all.drop a = segment all a b ++ all.drop b := by
  have hdrop : all.drop b = (all.drop a).drop (b - a) := by
    rw [List.drop_drop, Nat.add_sub_cancel' hab]
  rw [segment, hdrop, List.take_append_drop]

theorem take_eq_segment {a b : ℕ} (hab : a ≤ b) :
    all.take b = all.take a ++ segment all a b := by
  rw [segment, ← List.take_add, Nat.add_sub_cancel' hab]

end Lines

/-! ### The scans -/

section Scans

variable {all : List Line}

theorem nextChange_spec {i : ℕ} (hi : i ≤ all.length) :
    i ≤ nextChange all i ∧ nextChange all i ≤ all.length ∧
    (∀ j, i ≤ j → j < nextChange all i → changedAt all j = false) ∧
    (nextChange all i < all.length → changedAt all (nextChange all i) = true) := by
  have hle : (all.drop i).findIdx (fun l => l.type ≠ .equal) ≤ (all.drop i).length :=
    List.findIdx_le_length
  rw [List.length_drop] at hle
  refine ⟨Nat.le_add_right _ _, by rw [nextChange]; omega, ?_, ?_⟩
  · intro j hij hj
    rw [Bool.eq_false_iff]
    intro hchange
    obtain ⟨l, hl, hne⟩ := changedAt_eq_true.1 hchange
    rw [nextChange] at hj
    have hbefore : j - i < (all.drop i).findIdx fun l => l.type ≠ .equal := by omega
    have hnot := List.not_of_lt_findIdx hbefore
    rw [List.getElem_drop] at hnot
    have hidx : i + (j - i) = j := by omega
    simp only [hidx, (List.getElem?_eq_some_iff.1 hl).2] at hnot
    simp [hne] at hnot
  · intro hlt
    rw [nextChange] at hlt ⊢
    have hlen : (all.drop i).findIdx (fun l => l.type ≠ .equal) < (all.drop i).length := by
      rw [List.length_drop]
      omega
    have hget := List.findIdx_getElem (w := hlen)
    rw [List.getElem_drop] at hget
    exact changedAt_eq_true.2 ⟨_, List.getElem?_eq_getElem hlt, of_decide_eq_true hget⟩

/-- What the end of a hunk is after the lines before `s` were scanned: it is three lines after the
last change that was close enough, and the others are further away. -/
def ScannedTo (all : List Line) (i s stop : ℕ) : Prop :=
  ∃ last, i ≤ last ∧ last < s ∧ changedAt all last = true ∧ stop = min (last + 4) all.length ∧
    ∀ j, last < j → j < s → changedAt all j = true → stop + 4 ≤ j

theorem scannedTo_foldl {i s stop m : ℕ} (h : ScannedTo all i s stop) (hm : s + m ≤ all.length) :
    ScannedTo all i (s + m) ((List.range' s m).foldl
      (fun stop j => if changedAt all j ∧ j ≤ stop + 3 then min (j + 4) all.length else stop)
      stop) := by
  induction m generalizing s stop with
  | zero => exact h
  | succ m ih =>
      rw [List.range'_succ, List.foldl_cons, show s + (m + 1) = s + 1 + m by omega]
      refine ih ?_ (by omega)
      obtain ⟨last, hi, hlast, hchange, hstop, hfar⟩ := h
      split
      · next hnear => exact ⟨s, by omega, by omega, hnear.1, rfl, fun j _ _ _ => by omega⟩
      · next hnear =>
          refine ⟨last, hi, by omega, hchange, hstop, ?_⟩
          intro j hj hjs hjc
          rcases Nat.lt_succ_iff_lt_or_eq.1 hjs with hjs | rfl
          · exact hfar j hj hjs hjc
          · by_contra hclose
            exact hnear ⟨hjc, by omega⟩

/-- **Where a hunk ends**: three lines after a change, or with the lines; the changes after this one
are not in the hunk, nor close to it. -/
theorem scanEnd_spec {i : ℕ} (hi : changedAt all i = true) :
    ScannedTo all i all.length (scanEnd all i) := by
  have hlt := lt_of_changedAt hi
  have hstart : ScannedTo all i (i + 1) (min (i + 4) all.length) :=
    ⟨i, le_refl i, by omega, hi, rfl, fun j _ _ _ => by omega⟩
  have hscan := scannedTo_foldl hstart (m := all.length - (i + 1)) (by omega)
  rw [show i + 1 + (all.length - (i + 1)) = all.length by omega] at hscan
  exact hscan

end Scans

/-! ### The loop -/

section Loop

variable {all : List Line}

/-- The texts of the lines up to a position. -/
theorem length_oldTexts_take {a b : ℕ} (hab : a ≤ b)
    (h : ∀ j, a ≤ j → j < b → changedAt all j = false) :
    (oldTexts (all.take b)).length =
        (oldTexts (all.take a)).length + ((segment all a b).map Line.text).length ∧
      (newTexts (all.take b)).length =
        (newTexts (all.take a)).length + ((segment all a b).map Line.text).length := by
  obtain ⟨hold, hnew⟩ := texts_of_equal (segment_equal h)
  rw [take_eq_segment hab, oldTexts_append, newTexts_append, hold, hnew, List.length_append,
    List.length_append]
  exact ⟨rfl, rfl⟩

/-- A line that is a change, at the two ends of a segment. -/
theorem segment_ends {a b : ℕ} (ha : changedAt all a = true) (hab : a ≤ b)
    (hb : changedAt all b = true) :
    (∃ l, (segment all a (b + 1)).head? = some l ∧ l.type ≠ .equal) ∧
      ∃ l, (segment all a (b + 1)).getLast? = some l ∧ l.type ≠ .equal := by
  have hlen : b + 1 ≤ all.length := lt_of_changedAt hb
  have hget : ∀ j, a ≤ j → j ≤ b → (segment all a (b + 1))[j - a]? = all[j]? := by
    intro j haj hjb
    rw [segment, List.getElem?_take_of_lt (by omega), List.getElem?_drop, Nat.add_sub_cancel' haj]
  obtain ⟨l, hl, hne⟩ := changedAt_eq_true.1 ha
  obtain ⟨l', hl', hne'⟩ := changedAt_eq_true.1 hb
  refine ⟨⟨l, ?_, hne⟩, l', ?_, hne'⟩
  · rw [List.head?_eq_getElem?, ← hl, ← hget a (le_refl a) hab, Nat.sub_self]
  · rw [List.getLast?_eq_getElem?, segment_length hlen, ← hl', ← hget b hab (le_refl b)]
    congr 1
    omega

/-- The position of the next change is far from the last hunk. -/
def FarChanges (all : List Line) (i : ℕ) : Prop :=
  i = 0 ∨ ∀ j, i ≤ j → changedAt all j = true → i + 4 ≤ j

/-- The parts of a hunk: up to three lines of context, the lines from the first to the last change,
and up to three lines of context again. -/
theorem hunk_parts {i k : ℕ} (hik : i ≤ k) (hfar : FarChanges all i)
    (hequal : ∀ j, i ≤ j → j < k → changedAt all j = false) (hk : changedAt all k = true) :
    ∃ last, k ≤ last ∧ changedAt all last = true ∧ last + 1 ≤ scanEnd all k ∧
      scanEnd all k = min (last + 4) all.length ∧ i ≤ k - 3 ∧
      (∀ j, k - 3 ≤ j → j < k → changedAt all j = false) ∧
      (∀ j, last + 1 ≤ j → j < scanEnd all k → changedAt all j = false) ∧
      (∀ j, scanEnd all k ≤ j → changedAt all j = true → scanEnd all k + 4 ≤ j) := by
  obtain ⟨last, hlast, hlt, hchange, hstop, hnext⟩ := scanEnd_spec hk
  have hstart : i ≤ k - 3 := by
    rcases hfar with rfl | hfar
    · exact Nat.zero_le _
    · have := hfar k hik hk
      omega
  refine ⟨last, hlast, hchange, by omega, hstop, hstart, ?_, ?_, ?_⟩
  · exact fun j hj hjk => hequal j (by omega) hjk
  · intro j hj hjs
    rw [Bool.eq_false_iff]
    intro hjc
    have := hnext j (by omega) (lt_of_changedAt hjc) hjc
    omega
  · exact fun j hj hjc => hnext j (by omega) (lt_of_changedAt hjc) hjc

/-- A hunk without a line of one of the texts is everything there is. -/
theorem segment_eq_all {k last : ℕ} {op : Operation} (hop : op ≠ .equal) (hk : k ≤ last)
    (hlast : last < all.length) (hend : scanEnd all k = min (last + 4) all.length)
    (hbefore : ∀ j, k - 3 ≤ j → j < k → changedAt all j = false)
    (hafter : ∀ j, last + 1 ≤ j → j < scanEnd all k → changedAt all j = false)
    (hnone : (segment all (k - 3) (scanEnd all k)).filter (·.type ≠ op) = []) :
    segment all (k - 3) (scanEnd all k) = all := by
  have hempty : ∀ a b, k - 3 ≤ a → a ≤ b → b ≤ scanEnd all k →
      (∀ j, a ≤ j → j < b → changedAt all j = false) → a = b := by
    intro a b ha hab hb hequal
    have hlen : (segment all a b).length = b - a := segment_length (by omega)
    have hnil : segment all a b = [] := by
      refine List.eq_nil_iff_forall_not_mem.2 fun l hl => ?_
      have hmem : l ∈ segment all (k - 3) (scanEnd all k) := by
        rw [segment_append ha (hab.trans hb), segment_append hab hb]
        exact List.mem_append_right _ (List.mem_append_left _ hl)
      have hne := List.filter_eq_nil_iff.1 hnone l hmem
      rw [segment_equal hequal l hl] at hne
      exact hne (by simpa using hop.symm)
    rw [hnil, List.length_nil] at hlen
    omega
  have hzero := hempty (k - 3) k (le_refl _) (by omega) (by omega) hbefore
  have hstop := hempty (last + 1) (scanEnd all k) (by omega) (by omega) (le_refl _) hafter
  rw [segment, show k - 3 = 0 by omega, List.drop_zero, Nat.sub_zero]
  exact List.take_of_length_le (by omega)

/-- **A hunk of the loop** has the right header and context. -/
theorem hunkAt_fits (hold : oldTexts all ≠ []) (hnew : newTexts all ≠ []) {i k : ℕ}
    (hik : i ≤ k) (hfar : FarChanges all i) (hequal : ∀ j, i ≤ j → j < k → changedAt all j = false)
    (hk : changedAt all k = true) :
    (hunkAt all (k - 3) (scanEnd all k)).Fits (oldTexts (all.take (k - 3))).length
      (newTexts (all.take (k - 3))).length
      (oldTexts (all.drop (scanEnd all k)) = [] ∧ newTexts (all.drop (scanEnd all k)) = []) := by
  obtain ⟨last, hlast, hchange, hlt, hend, hstart, hbefore, hafter, -⟩ :=
    hunk_parts hik hfar hequal hk
  have hlen := lt_of_changedAt hchange
  have hfull : ∀ {op : Operation}, op ≠ .equal →
      ((segment all (k - 3) (scanEnd all k)).filter (·.type ≠ op)) = [] →
        segment all (k - 3) (scanEnd all k) = all :=
    fun hop => segment_eq_all hop hlast hlen hend hbefore hafter
  obtain ⟨hhead, hlastLine⟩ := segment_ends hk hlast hchange
  refine ⟨countP_old _, countP_new _, ?_, ?_, ?_⟩
  · have hne : (segment all (k - 3) (scanEnd all k)).countP (·.type ≠ .insert) ≠ 0 := by
      rw [List.countP_eq_length_filter]
      intro hzero
      have hnil := List.length_eq_zero_iff.1 hzero
      rw [hfull (by decide) hnil] at hnil
      exact hold (by rw [oldTexts, hnil, List.map_nil])
    have hcount : (hunkAt all (k - 3) (scanEnd all k)).oldCount ≠ 0 := hne
    rw [startOf, if_neg hcount, ← countP_old, Nat.add_comm]
    rfl
  · have hne : (segment all (k - 3) (scanEnd all k)).countP (·.type ≠ .delete) ≠ 0 := by
      rw [List.countP_eq_length_filter]
      intro hzero
      have hnil := List.length_eq_zero_iff.1 hzero
      rw [hfull (by decide) hnil] at hnil
      exact hnew (by rw [newTexts, hnil, List.map_nil])
    have hcount : (hunkAt all (k - 3) (scanEnd all k)).newCount ≠ 0 := hne
    rw [startOf, if_neg hcount, ← countP_new, Nat.add_comm]
    rfl
  · refine ⟨segment all (k - 3) k, segment all k (last + 1), segment all (last + 1) (scanEnd all k),
      ?_, segment_equal hbefore, segment_equal hafter, hhead, hlastLine, ?_, ?_, ?_, ?_⟩
    · rw [hunkAt, segment_append (b := k) (by omega) (by omega),
        segment_append (a := k) (b := last + 1) (by omega) hlt]
    · rw [segment_length (by omega)]
      omega
    · rw [segment_length (by omega)]
      omega
    · rw [segment_length (by omega)]
      intro hlt3
      rw [show k - 3 = 0 by omega]
      exact ⟨rfl, rfl⟩
    · rw [segment_length (by omega)]
      intro hlt3
      rw [List.drop_of_length_le (by omega)]
      exact ⟨rfl, rfl⟩

/-- **The loop over the lines** cuts them into hunks that turn the old lines into the new ones. -/
theorem hunksFrom_patches (hold : oldTexts all ≠ []) (hnew : newTexts all ≠ []) (fuel : ℕ) {i : ℕ}
    (hi : i ≤ all.length) (hfuel : all.length < i + fuel) (hfar : FarChanges all i) :
    Patches (oldTexts (all.take i)).length (newTexts (all.take i)).length (hunksFrom all fuel i)
      (oldTexts (all.drop i)) (newTexts (all.drop i)) := by
  induction fuel generalizing i with
  | zero => omega
  | succ fuel ih =>
      obtain ⟨hik, hklen, hequal, hchange⟩ := nextChange_spec hi
      rw [hunksFrom]
      split
      · next hend =>
          -- no change is left: the rest is common
          have hall : ∀ j, i ≤ j → j < all.length → changedAt all j = false :=
            fun j hj hjl => hequal j hj (by omega)
          have hsegment : all.drop i = segment all i all.length := by
            rw [drop_eq_segment hi, List.drop_length, List.append_nil]
          obtain ⟨ho, hn⟩ := texts_of_equal (segment_equal hall)
          rw [hsegment, ho, hn]
          exact .done _ _ _
      · next hmore =>
          have hk := hchange (by omega)
          obtain ⟨last, hlast, hlastChange, hlt, hend, hstart, hbefore, hafter, hfarNext⟩ :=
            hunk_parts hik hfar hequal hk
          have hstop : scanEnd all (nextChange all i) ≤ all.length := by omega
          have hgap : ∀ j, i ≤ j → j < nextChange all i - 3 → changedAt all j = false :=
            fun j hj hjk => hequal j hj (by omega)
          obtain ⟨hgapOld, hgapNew⟩ := texts_of_equal (segment_equal hgap)
          obtain ⟨hlenOld, hlenNew⟩ := length_oldTexts_take hstart hgap
          have hle : nextChange all i - 3 ≤ scanEnd all (nextChange all i) := by omega
          have hsplit : all.drop i = segment all i (nextChange all i - 3) ++
              (segment all (nextChange all i - 3) (scanEnd all (nextChange all i)) ++
                all.drop (scanEnd all (nextChange all i))) := by
            rw [drop_eq_segment hstart, drop_eq_segment hle]
          have hfits := hunkAt_fits hold hnew hik hfar hequal hk
          have hrest := ih hstop (by omega) (Or.inr hfarNext)
          rw [take_eq_segment hle, oldTexts_append,
            newTexts_append, List.length_append, List.length_append] at hrest
          rw [hlenOld, hlenNew] at hfits hrest
          rw [hsplit, oldTexts_append, oldTexts_append, newTexts_append, newTexts_append, hgapOld,
            hgapNew]
          exact .hunk _ hfits hrest

end Loop

/-! ### The texts -/

theorem splitAfter_flatten (text : Bytes) : (splitAfter text).flatten = text := by
  induction text with
  | nil => rfl
  | cons b s ih =>
      rw [splitAfter]
      split
      · rw [List.flatten_cons, ih]
        rfl
      · split
        · next h =>
            rw [h] at ih
            rw [← ih]
            rfl
        · next h =>
            rw [h, List.flatten_cons] at ih
            rw [List.flatten_cons, List.cons_append, ih]

/-- The lines of a text make up the text. -/
theorem textLines_flatten (text : Bytes) : (textLines text).flatten = text := by
  have hfilter : ∀ ls : List Bytes, (ls.filter (· ≠ [])).flatten = ls.flatten := by
    intro ls
    induction ls with
    | nil => rfl
    | cons l ls ih =>
        by_cases hl : l = []
        · rw [List.filter_cons_of_neg (by simpa using hl), ih, hl, List.flatten_cons, List.nil_append]
        · rw [List.filter_cons_of_pos (by simpa using hl), List.flatten_cons, ih, List.flatten_cons]
  rw [textLines, hfilter, splitAfter_flatten]

theorem textLines_inj {text text' : Bytes} (h : textLines text = textLines text') : text = text' := by
  rw [← textLines_flatten text, h, textLines_flatten]

theorem textLines_ne_nil {text : Bytes} (h : text ≠ []) : textLines text ≠ [] := by
  intro hnil
  exact h (textLines_inj hnil)

/-- The lines of the pieces that are not of a type. -/
theorem texts_scriptLines (op : Operation) (diffs : List Diff) :
    ((scriptLines diffs).filter (·.type ≠ op)).map Line.text =
      (diffs.filter (·.type ≠ op)).flatMap fun d => textLines d.text := by
  induction diffs with
  | nil => rfl
  | cons d diffs ih =>
      have hone : (((textLines d.text).map (Line.mk d.type)).filter (·.type ≠ op)).map Line.text =
          if d.type ≠ op then textLines d.text else [] := by
        rw [List.filter_map, List.map_map]
        split
        · next h => simp [Function.comp_def, h]
        · next h => simp [Function.comp_def, not_not.1 h]
      rw [scriptLines, List.flatMap_cons, List.filter_append, List.map_append, hone, ← scriptLines, ih]
      by_cases h : d.type = op
      · rw [if_neg (not_not.2 h), List.filter_cons_of_neg (by simpa using h), List.nil_append]
      · rw [if_pos h, List.filter_cons_of_pos (by simpa using h), List.flatMap_cons]

theorem LineScript.oldTexts {old newer : Bytes} {diffs : List Diff} (h : LineScript old newer diffs) :
    oldTexts (scriptLines diffs) = textLines old :=
  (texts_scriptLines .insert diffs).trans h.old_lines

theorem LineScript.newTexts {old newer : Bytes} {diffs : List Diff} (h : LineScript old newer diffs) :
    newTexts (scriptLines diffs) = textLines newer :=
  (texts_scriptLines .delete diffs).trans h.new_lines

/-! ### Reading the text -/

/-- What follows the text of a line without a newline. -/
def noNewline : Bytes := bytes "\\ No newline at end of file" ++ [10]

/-- Reads the digits of a number, after a number that is read already. -/
def readNumber : ℕ → Bytes → ℕ × Bytes
  | n, [] => (n, [])
  | n, b :: s => if 48 ≤ b ∧ b ≤ 57 then readNumber (10 * n + (b.toNat - 48)) s else (n, b :: s)

/-- The operation that a line starts with. -/
def Operation.ofMark (b : UInt8) : Option Operation :=
  if b = 32 then some .equal else if b = 45 then some .delete else if b = 43 then some .insert
  else none

/-- Reads what comes after the first byte of a line. -/
def readLine (op : Operation) (s : Bytes) : Line × Bytes :=
  match stripPrefix noNewline ((s.dropWhile (· ≠ 10)).drop 1) with
  | some rest => (⟨op, s.takeWhile (· ≠ 10)⟩, rest)
  | none => (⟨op, s.takeWhile (· ≠ 10) ++ [10]⟩, (s.dropWhile (· ≠ 10)).drop 1)

/-- Reads lines until one starts with another byte; `fuel` bounds their number. -/
def readLines : ℕ → Bytes → List Line × Bytes
  | 0, s => ([], s)
  | _ + 1, [] => ([], [])
  | fuel + 1, b :: s =>
      match Operation.ofMark b with
      | none => ([], b :: s)
      | some op =>
          ((readLine op s).1 :: (readLines fuel (readLine op s).2).1,
            (readLines fuel (readLine op s).2).2)

/-- Reads a hunk: the numbers of its header, and its lines. -/
def readHunk (s : Bytes) : Option (Hunk × Bytes) := do
  let s ← stripPrefix (bytes "@@ -") s
  let (oldStart, s) := readNumber 0 s
  let s ← stripPrefix (bytes ",") s
  let (oldCount, s) := readNumber 0 s
  let s ← stripPrefix (bytes " +") s
  let (newStart, s) := readNumber 0 s
  let s ← stripPrefix (bytes ",") s
  let (newCount, s) := readNumber 0 s
  let s ← stripPrefix (bytes " @@" ++ [10]) s
  let (lines, s) := readLines s.length s
  return (⟨oldStart, oldCount, newStart, newCount, lines⟩, s)

/-- Reads hunks up to the end of the text. -/
def readHunks : ℕ → Bytes → Option (List Hunk)
  | _, [] => some []
  | 0, _ :: _ => none
  | fuel + 1, s => do
      let (h, s) ← readHunk s
      (readHunks fuel s).map (h :: ·)

/-- Numbers are read back, if no digit follows. -/
theorem readNumber_numberText (n : ℕ) {rest : Bytes}
    (h : ∀ b, rest.head? = some b → ¬ (48 ≤ b ∧ b ≤ 57)) :
    readNumber 0 (numberText n ++ rest) = (n, rest) := by
  have hdigits : ∀ (cs : List Char) (m : ℕ), (∀ c ∈ cs, c.isDigit = true) →
      readNumber m (cs.map (fun c => c.toNat.toUInt8) ++ rest) =
        (Nat.ofDigitChars 10 cs m, rest) := by
    intro cs
    induction cs with
    | nil =>
        intro m _
        cases rest with
        | nil => rfl
        | cons b rest =>
            rw [List.map_nil, List.nil_append, readNumber, if_neg (h b rfl)]
            rfl
    | cons c cs ih =>
        intro m hcs
        have hdigit := hcs c List.mem_cons_self
        have hrange : 48 ≤ c.toNat ∧ c.toNat ≤ 57 := by
          simpa [Char.isDigit, UInt32.le_iff_toNat_le] using hdigit
        have hbyte : c.toNat.toUInt8.toNat = c.toNat := by
          rw [Nat.toUInt8_eq, UInt8.toNat_ofNat']
          omega
        have hle : (48 : UInt8) ≤ c.toNat.toUInt8 ∧ c.toNat.toUInt8 ≤ 57 := by
          rw [UInt8.le_iff_toNat_le, UInt8.le_iff_toNat_le, hbyte]
          exact hrange
        rw [List.map_cons, List.cons_append, readNumber, if_pos hle, hbyte,
          ih _ fun c' hc' => hcs c' (List.mem_cons_of_mem _ hc'), Nat.ofDigitChars_cons]
        rfl
  rw [numberText, hdigits _ 0 fun c hc => Nat.isDigit_of_mem_toDigits (by decide) (by decide) hc,
    Nat.ofDigitChars_ten_toDigits]

/-- A line has no newline but at its end. -/
def Line.Whole (l : Line) : Prop := 10 ∉ l.text.dropLast

theorem splitAfter_whole {text line : Bytes} (h : line ∈ splitAfter text) : 10 ∉ line.dropLast := by
  induction text generalizing line with
  | nil =>
      rw [List.mem_singleton.1 h]
      exact List.not_mem_nil
  | cons b s ih =>
      rw [splitAfter] at h
      split at h
      · rcases List.mem_cons.1 h with rfl | h
        · exact List.not_mem_nil
        · exact ih h
      · next hb =>
          split at h
          · rw [List.mem_singleton.1 h]
            exact List.not_mem_nil
          · next l ls hsplit =>
              rcases List.mem_cons.1 h with rfl | h
              · cases l with
                | nil => exact List.not_mem_nil
                | cons c l =>
                    have hl := ih (hsplit ▸ List.mem_cons_self)
                    rw [List.dropLast_cons_of_ne_nil (List.cons_ne_nil c l), List.mem_cons, not_or]
                    exact ⟨Ne.symm hb, hl⟩
              · exact ih (hsplit ▸ List.mem_cons_of_mem _ h)

theorem scriptLines_whole {diffs : List Diff} {l : Line} (h : l ∈ scriptLines diffs) : l.Whole := by
  obtain ⟨d, -, hl⟩ := List.mem_flatMap.1 h
  obtain ⟨text, htext, rfl⟩ := List.mem_map.1 hl
  exact splitAfter_whole (List.mem_filter.1 htext).1

/-- **A line is read back**, if what follows does not say that it has no newline. -/
theorem readLine_output {l : Line} (hl : l.Whole) {rest : Bytes}
    (hrest : stripPrefix noNewline rest = none) :
    ∃ s, l.output ++ rest = l.type.mark :: s ∧ readLine l.type s = (l, rest) := by
  obtain ⟨op, text⟩ := l
  have hread : ∀ (t r : Bytes), 10 ∉ t → (t ++ 10 :: r).takeWhile (· ≠ 10) = t ∧
      (t ++ 10 :: r).dropWhile (· ≠ 10) = 10 :: r := by
    intro t r ht
    have hall : ∀ b ∈ t, decide (b ≠ 10) = true := by
      intro b hb
      exact decide_eq_true fun heq => ht (heq ▸ hb)
    rw [List.takeWhile_append_of_pos hall, List.dropWhile_append_of_pos hall]
    simp
  by_cases hend : text.getLast? = some 10
  · obtain ⟨t, rfl⟩ := List.getLast?_eq_some_iff.1 hend
    have ht : 10 ∉ t := by
      have hwhole := hl
      rwa [Line.Whole, List.dropLast_concat] at hwhole
    obtain ⟨htake, hdrop⟩ := hread t rest ht
    refine ⟨t ++ 10 :: rest, ?_, ?_⟩
    · rw [Line.output, if_pos hend]
      simp
    · rw [readLine, htake, hdrop, List.drop_one, List.tail_cons, hrest]
  · have ht : 10 ∉ text := by
      intro hmem
      rcases List.eq_nil_or_concat text with rfl | ⟨t, b, rfl⟩
      · exact List.not_mem_nil hmem
      · rw [List.concat_eq_append] at hl hend hmem
        rcases List.mem_append.1 hmem with hmem | hmem
        · rw [Line.Whole, List.dropLast_concat] at hl
          exact hl hmem
        · exact hend (by rw [List.getLast?_concat, List.mem_singleton.1 hmem])
    obtain ⟨htake, hdrop⟩ := hread text (noNewline ++ rest) ht
    refine ⟨text ++ 10 :: (noNewline ++ rest), ?_, ?_⟩
    · rw [Line.output, if_neg hend, noNewline]
      simp
    · rw [readLine, htake, hdrop, List.drop_one, List.tail_cons, stripPrefix_append]

theorem Operation.ofMark_mark (op : Operation) : Operation.ofMark op.mark = some op := by
  cases op <;> rfl

/-- No line, and no mark of a missing newline, starts here. -/
def AtHunk (s : Bytes) : Prop := s = [] ∨ ∃ t, s = 64 :: t

theorem stripPrefix_noNewline {b : UInt8} {s : Bytes} (h : b ≠ 92) :
    stripPrefix noNewline (b :: s) = none := by
  rw [noNewline]
  exact if_neg h.symm

theorem AtHunk.stripPrefix {s : Bytes} (h : AtHunk s) : stripPrefix noNewline s = none := by
  rcases h with rfl | ⟨t, rfl⟩
  · rfl
  · exact stripPrefix_noNewline (by decide)

/-- The lines of a hunk are read back. -/
theorem readLines_output {ls : List Line} (hls : ∀ l ∈ ls, l.Whole) {rest : Bytes}
    (hrest : AtHunk rest) {fuel : ℕ} (hfuel : (ls.flatMap Line.output ++ rest).length ≤ fuel) :
    readLines fuel (ls.flatMap Line.output ++ rest) = (ls, rest) := by
  induction ls generalizing fuel with
  | nil =>
      rcases hrest with rfl | ⟨t, rfl⟩
      · cases fuel <;> rfl
      · cases fuel <;> rfl
  | cons l ls ih =>
      have hnext : stripPrefix noNewline (ls.flatMap Line.output ++ rest) = none := by
        cases ls with
        | nil => exact hrest.stripPrefix
        | cons l' ls' =>
            refine stripPrefix_noNewline ?_
            cases l'.type <;> decide
      rw [List.flatMap_cons, List.append_assoc] at hfuel ⊢
      obtain ⟨s, hs, hline⟩ := readLine_output (hls l List.mem_cons_self) hnext
      have hlen : (l.output ++ (ls.flatMap Line.output ++ rest)).length =
          l.output.length + (ls.flatMap Line.output ++ rest).length := List.length_append
      have hpos : 0 < l.output.length := Nat.succ_pos _
      cases fuel with
      | zero => omega
      | succ fuel =>
          have hfuel' : (ls.flatMap Line.output ++ rest).length ≤ fuel := by omega
          have hrestLines := ih (fun l' hl' => hls l' (List.mem_cons_of_mem _ hl')) hfuel'
          rw [hs, readLines, Operation.ofMark_mark]
          dsimp only
          rw [hline, hrestLines]

/-- **A hunk is read back.** -/
theorem readHunk_text {h : Hunk} (hlines : ∀ l ∈ h.lines, l.Whole) {rest : Bytes}
    (hrest : AtHunk rest) : readHunk (h.text ++ rest) = some (h, rest) := by
  have hnumber : ∀ (p : Bytes), (∃ b q, p = b :: q ∧ ¬ (48 ≤ b ∧ b ≤ 57)) → ∀ (n : ℕ) (s : Bytes),
      readNumber 0 (numberText n ++ (p ++ s)) = (n, p ++ s) := by
    rintro _ ⟨b, q, rfl, hb⟩ n s
    refine readNumber_numberText n fun b' hb' => ?_
    rwa [← Option.some.inj hb']
  have hcomma := hnumber (bytes ",") ⟨44, [], rfl, by decide⟩
  have hplus := hnumber (bytes " +") ⟨32, [43], rfl, by decide⟩
  have hend := hnumber (bytes " @@") ⟨32, [64, 64], rfl, by decide⟩
  rw [readHunk, Hunk.text]
  simp only [List.append_assoc, stripPrefix_append, Option.bind_eq_bind, Option.bind_some, hcomma,
    hplus, hend]
  rw [← List.append_assoc (bytes " @@"), stripPrefix_append, Option.bind_some,
    readLines_output hlines hrest le_rfl]
  rfl

/-- **Hunks are read back**, whatever their lines are. -/
theorem readHunks_text {hs : List Hunk} (hlines : ∀ h ∈ hs, ∀ l ∈ h.lines, l.Whole) {fuel : ℕ}
    (hfuel : (hs.flatMap Hunk.text).length ≤ fuel) :
    readHunks fuel (hs.flatMap Hunk.text) = some hs := by
  induction hs generalizing fuel with
  | nil => cases fuel <;> rfl
  | cons h hs ih =>
      have hrest : AtHunk (hs.flatMap Hunk.text) := by
        cases hs with
        | nil => exact Or.inl rfl
        | cons h' hs' => exact Or.inr ⟨_, rfl⟩
      rw [List.flatMap_cons] at hfuel ⊢
      have hread := readHunk_text (hlines h List.mem_cons_self) hrest
      have hpos : 0 < h.text.length := Nat.succ_pos _
      have hlen : (h.text ++ hs.flatMap Hunk.text).length =
          h.text.length + (hs.flatMap Hunk.text).length := List.length_append
      have hposText : 0 < (h.text ++ hs.flatMap Hunk.text).length := by omega
      obtain ⟨b, t, ht⟩ := List.exists_cons_of_length_pos hposText
      cases fuel with
      | zero => omega
      | succ fuel =>
          have hfuel' : (hs.flatMap Hunk.text).length ≤ fuel := by omega
          have hhunks := ih (fun h' hh' => hlines h' (List.mem_cons_of_mem _ hh')) hfuel'
          rw [ht] at hread ⊢
          have hstep : readHunks (fuel + 1) (b :: t) =
              (readHunk (b :: t)).bind fun r => (readHunks fuel r.2).map (r.1 :: ·) := rfl
          rw [hstep, hread, Option.bind_some, hhunks, Option.map_some]

theorem hunksFrom_lines {all : List Line} {fuel i : ℕ} {h : Hunk} (hh : h ∈ hunksFrom all fuel i) :
    ∀ l ∈ h.lines, l ∈ all := by
  induction fuel generalizing i with
  | zero => exact absurd hh List.not_mem_nil
  | succ fuel ih =>
      rw [hunksFrom] at hh
      split at hh
      · exact absurd hh List.not_mem_nil
      · rcases List.mem_cons.1 hh with rfl | hh
        · exact fun l hl => List.mem_of_mem_drop (List.mem_of_mem_take hl)
        · exact ih hh

/-- **The text of the hunks is read back.** -/
theorem readHunks_unifiedHunks (diff : Bytes → Bytes → List Diff) (old newer : Bytes) :
    readHunks (unifiedHunks diff old newer).length (unifiedHunks diff old newer) =
      some (hunks diff old newer) := by
  refine readHunks_text (fun h hh l hl => ?_) le_rfl
  rw [hunks] at hh
  split at hh
  · exact absurd hh List.not_mem_nil
  · exact scriptLines_whole (hunksFrom_lines hh l hl)

/-! ### Validity -/

/-- **The hunks are a unified diff of the two texts.** -/
structure ValidDiff (old newer : Bytes) (hs : List Hunk) : Prop where
  patches : Patches 0 0 hs (textLines old) (textLines newer)
  /-- Applied to the old text they give the new one, byte for byte. -/
  applies : (applyHunks 0 hs (textLines old)).map List.flatten = some newer

section Valid

variable {diff : Bytes → Bytes → List Diff} {old newer : Bytes}

/-- No line number is 0. -/
theorem start_pos {all : List Line} {fuel i : ℕ} {h : Hunk} (hmem : h ∈ hunksFrom all fuel i) :
    0 < h.oldStart ∧ 0 < h.newStart := by
  induction fuel generalizing i with
  | zero => exact absurd hmem List.not_mem_nil
  | succ fuel ih =>
      rw [hunksFrom] at hmem
      split at hmem
      · exact absurd hmem List.not_mem_nil
      · rcases List.mem_cons.1 hmem with rfl | hmem
        · exact ⟨Nat.lt_of_lt_of_le Nat.one_pos (Nat.le_add_right 1 _),
            Nat.lt_of_lt_of_le Nat.one_pos (Nat.le_add_right 1 _)⟩
        · exact ih hmem

/-- There are hunks exactly when the texts differ. -/
theorem hunks_eq_nil_iff (h : LineScript old newer (diff old newer)) :
    hunks diff old newer = [] ↔ old = newer := by
  rw [hunks]
  constructor
  · intro hnil
    split at hnil
    · next heq => exact heq
    · rw [hunksFrom] at hnil
      split at hnil
      · next hend =>
          obtain ⟨-, -, hequal, -⟩ := nextChange_spec (Nat.zero_le (scriptLines (diff old newer)).length)
          have hall : ∀ j, 0 ≤ j → j < (scriptLines (diff old newer)).length →
              changedAt (scriptLines (diff old newer)) j = false :=
            fun j hj hjl => hequal j hj (by omega)
          obtain ⟨ho, hn⟩ := texts_of_equal (segment_equal hall)
          rw [segment, List.drop_zero, Nat.sub_zero, List.take_length] at ho hn
          refine textLines_inj ?_
          rw [← h.oldTexts, ← h.newTexts, ho, hn]
      · exact (List.cons_ne_nil _ _ hnil).elim
  · rintro rfl
    exact if_pos rfl

theorem unifiedHunks_eq_nil_iff (h : LineScript old newer (diff old newer)) :
    unifiedHunks diff old newer = [] ↔ old = newer := by
  rw [← hunks_eq_nil_iff h, unifiedHunks, List.flatMap_eq_nil_iff]
  constructor
  · intro hall
    refine List.eq_nil_iff_forall_not_mem.2 fun hk hmem => ?_
    have hnil := hall hk hmem
    rw [Hunk.text] at hnil
    simp [bytes] at hnil
  · intro hnil hk hmem
    rw [hnil] at hmem
    exact absurd hmem List.not_mem_nil

/-- With lines in both texts the hunks are valid. -/
theorem hunks_valid (h : LineScript old newer (diff old newer)) (hold : old ≠ [])
    (hnew : newer ≠ []) : ValidDiff old newer (hunks diff old newer) := by
  have hpatches : Patches 0 0 (hunks diff old newer) (textLines old) (textLines newer) := by
    rw [hunks]
    split
    · next heq =>
        subst heq
        exact .done _ _ _
    · have ho := h.oldTexts
      have hn := h.newTexts
      have hloop := hunksFrom_patches (ho ▸ textLines_ne_nil hold) (hn ▸ textLines_ne_nil hnew)
        ((scriptLines (diff old newer)).length + 1) (Nat.zero_le _) (by omega) (Or.inl rfl)
      rw [List.take_zero, List.drop_zero, ho, hn] at hloop
      exact hloop
  refine ⟨hpatches, ?_⟩
  rw [hpatches.apply, Option.map_some, textLines_flatten]

/-- **The header of an empty side names line 1**, not the line before. -/
theorem not_patches_of_empty (h : LineScript old newer (diff old newer)) (hne : old ≠ newer)
    (hempty : old = [] ∨ newer = []) :
    ¬ Patches 0 0 (hunks diff old newer) (textLines old) (textLines newer) := by
  intro hpatches
  have hsome : hunks diff old newer ≠ [] := fun hnil => hne ((hunks_eq_nil_iff h).1 hnil)
  have hpos : ∀ hk ∈ hunks diff old newer, 0 < hk.oldStart ∧ 0 < hk.newStart := by
    intro hk hmem
    rw [hunks, if_neg hne] at hmem
    exact start_pos hmem
  cases hs : hunks diff old newer with
  | nil => exact hsome hs
  | cons hk hs' =>
      obtain ⟨hposOld, hposNew⟩ := hpos hk (hs ▸ List.mem_cons_self)
      rw [hs] at hpatches
      generalize ho : textLines old = os at hpatches
      generalize hn : textLines newer = ns at hpatches
      cases hpatches with
      | hunk gap fits rest =>
          rcases hempty with rfl | rfl
          · obtain ⟨rfl, hlines⟩ := List.append_eq_nil_iff.1 ho.symm
            have hnone := (List.append_eq_nil_iff.1 hlines).1
            have hcount : hk.oldCount = 0 := by rw [fits.oldCount, hnone, List.length_nil]
            have hstart := fits.oldStart
            rw [hcount, startOf, if_pos rfl, List.length_nil] at hstart
            omega
          · obtain ⟨rfl, hlines⟩ := List.append_eq_nil_iff.1 hn.symm
            have hnone := (List.append_eq_nil_iff.1 hlines).1
            have hcount : hk.newCount = 0 := by rw [fits.newCount, hnone, List.length_nil]
            have hstart := fits.newStart
            rw [hcount, startOf, if_pos rfl, List.length_nil] at hstart
            omega

/-- **The hunks are a unified diff exactly when neither text is empty**, or both are the same; they
are what is read from the printed text, which is empty exactly when the texts are the same. -/
theorem unifiedHunks_valid_iff (h : LineScript old newer (diff old newer)) :
    (ValidDiff old newer (hunks diff old newer) ∧
      readHunks (unifiedHunks diff old newer).length (unifiedHunks diff old newer) =
        some (hunks diff old newer) ∧
      (unifiedHunks diff old newer = [] ↔ old = newer)) ↔
      old = newer ∨ (old ≠ [] ∧ newer ≠ []) := by
  rw [and_iff_left ⟨readHunks_unifiedHunks diff old newer, unifiedHunks_eq_nil_iff h⟩]
  constructor
  · intro hvalid
    by_contra hcases
    rw [not_or, not_and_or, not_not, not_not] at hcases
    exact not_patches_of_empty h hcases.1 hcases.2 hvalid.patches
  · rintro (rfl | ⟨hold, hnew⟩)
    · rw [hunks, if_pos rfl]
      exact ⟨.done _ _ _, by rw [applyHunks, Option.map_some, textLines_flatten]⟩
    · exact hunks_valid h hold hnew

end Valid

/-- The script of two texts that have no line in common. -/
def replaceAll (old newer : Bytes) : List Diff :=
  (if old = [] then [] else [⟨.delete, old⟩]) ++ if newer = [] then [] else [⟨.insert, newer⟩]

theorem lineScript_replaceAll (old newer : Bytes) :
    LineScript old newer (replaceAll old newer) := by
  by_cases hold : old = [] <;> by_cases hnew : newer = []
  all_goals exact ⟨by simp [replaceAll, hold, hnew, textLines, splitAfter],
    by simp [replaceAll, hold, hnew, textLines, splitAfter]⟩

theorem unifiedHunks_valid_changed :
    ValidDiff (bytes "old" ++ [10]) (bytes "new")
      (hunks replaceAll (bytes "old" ++ [10]) (bytes "new")) ∧
    unifiedHunks replaceAll (bytes "old" ++ [10]) (bytes "new") =
      bytes "@@ -1,1 +1,1 @@" ++ [10] ++ bytes "-old" ++ [10] ++ bytes "+new" ++ [10] ++
        bytes "\\ No newline at end of file" ++ [10] :=
  ⟨((unifiedHunks_valid_iff (lineScript_replaceAll _ _)).2
    (Or.inr ⟨by decide, by decide⟩)).1, by decide⟩

/-- A file that is created: the header has line 1 of the empty text. -/
theorem created_invalid :
    LineScript [] (bytes "a" ++ [10]) (replaceAll [] (bytes "a" ++ [10])) ∧
    (hunks replaceAll [] (bytes "a" ++ [10])).map (fun h => (h.oldStart, h.oldCount)) = [(1, 0)] ∧
    ¬ ValidDiff [] (bytes "a" ++ [10]) (hunks replaceAll [] (bytes "a" ++ [10])) :=
  ⟨lineScript_replaceAll _ _, by decide, fun h =>
    not_patches_of_empty (lineScript_replaceAll _ _) (by decide) (Or.inl rfl) h.patches⟩

end WiseLabz.Sync
