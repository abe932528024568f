/-
**A doc as a sequence of lines and blocks.**

The scanner of `WiseLabz/Doc/Blocks.lean` works on byte positions.  This module gives the view of a
doc in which its properties are easy to state: a sequence of items, each a line of text or a whole
generated block, the lines of a doc being its maximal runs without a newline.  The scanner is shown
to compute exactly that view, with enough fuel for every input.

Main definitions:

* `Doc.Item`, `Doc.Item.lines` — a text line or a block, and the lines it stands for;
* `Doc.closeScan` — the body lines up to the closing marker, and the lines after it;
* `Doc.parseLines` — **the line-level parser**;
* `Doc.toSegments` — the segments of a sequence of items.

Main results:

* `Doc.closeLoop_eq` — the inner loop of the scanner computes `Doc.closeScan`;
* `Doc.parseLoop_eq` — **the scanner terminates and computes the line-level parser**, and
  `Doc.parseBlocks_eq` is the same for a whole doc;
* `Doc.parseLines_lines` — the line-level parser loses nothing;
* `Doc.parseLines_eq_self` — it reads back every quiet sequence of items, `Doc.Quiet` being the
  sequences in which no text line opens a block.
-/

import WiseLabz.Doc.Blocks
import Mathlib.Data.List.TakeDrop

set_option relaxedAutoImplicit false
set_option autoImplicit false

namespace WiseLabz.Doc

open Lib

/-! ### Lines -/

/-- The lines of a byte string. -/
def linesOf (s : Bytes) : List Bytes := s.splitOn newline

/-- The byte string with the given lines. -/
def joinLines (ls : List Bytes) : Bytes := [newline].intercalate ls

@[simp] theorem joinLines_linesOf (s : Bytes) : joinLines (linesOf s) = s :=
  List.intercalate_splitOn newline

theorem linesOf_joinLines {ls : List Bytes} (hne : ls ≠ []) (h : ∀ l ∈ ls, newline ∉ l) :
    linesOf (joinLines ls) = ls :=
  List.splitOn_intercalate newline h hne

@[simp] theorem linesOf_nil : linesOf [] = [[]] := rfl

@[simp] theorem linesOf_ne_nil (s : Bytes) : linesOf s ≠ [] := List.splitOn_ne_nil newline s

theorem linesOf_of_notMem {s : Bytes} (h : newline ∉ s) : linesOf s = [s] :=
  List.splitOn_eq_singleton h

theorem linesOf_append_newline {l : Bytes} (h : newline ∉ l) (s : Bytes) :
    linesOf (l ++ newline :: s) = l :: linesOf s :=
  List.splitOn_append_cons_self_of_not_mem h s

@[simp] theorem linesOf_newline_cons (s : Bytes) : linesOf (newline :: s) = [] :: linesOf s :=
  linesOf_append_newline (l := []) (by simp) s

@[simp] theorem joinLines_singleton (l : Bytes) : joinLines [l] = l := List.intercalate_singleton

theorem joinLines_cons {l : Bytes} {ls : List Bytes} (h : ls ≠ []) :
    joinLines (l :: ls) = l ++ newline :: joinLines ls := by
  simp [joinLines, List.intercalate_cons_of_ne_nil h]

/-- The first line of a byte string: all of it, or what precedes the first newline. -/
theorem linesOf_cases (s : Bytes) : (newline ∉ s ∧ linesOf s = [s]) ∨
    ∃ l r, newline ∉ l ∧ s = l ++ newline :: r ∧ linesOf s = l :: linesOf r := by
  by_cases h : newline ∈ s
  · obtain ⟨l, r, rfl, hl⟩ := List.eq_append_cons_of_mem h
    exact Or.inr ⟨l, r, hl, rfl, linesOf_append_newline hl r⟩
  · exact Or.inl ⟨h, linesOf_of_notMem h⟩

/-- No line contains a newline. -/
theorem newline_notMem_of_mem_linesOf {s l : Bytes} (h : l ∈ linesOf s) : newline ∉ l := by
  induction hn : s.length using Nat.strong_induction_on generalizing s with
  | _ n ih =>
      rcases linesOf_cases s with ⟨hs, he⟩ | ⟨l', r, hl', rfl, he⟩
      · rw [he, List.mem_singleton] at h
        exact h ▸ hs
      · rw [he] at h
        rcases List.mem_cons.1 h with rfl | h
        · exact hl'
        · exact ih r.length (by simp at hn; omega) h rfl

/-- A line is a contiguous part of the byte string. -/
theorem infix_of_mem_linesOf {s l : Bytes} (h : l ∈ linesOf s) : l <:+: s := by
  induction hn : s.length using Nat.strong_induction_on generalizing s with
  | _ n ih =>
      rcases linesOf_cases s with ⟨hs, he⟩ | ⟨l', r, hl', rfl, he⟩
      · rw [he, List.mem_singleton] at h
        exact h ▸ List.infix_rfl
      · rw [he] at h
        rcases List.mem_cons.1 h with rfl | h
        · exact (List.prefix_append _ _).isInfix
        · obtain ⟨a, b, hab⟩ := ih r.length (by simp at hn; omega) h rfl
          exact ⟨l' ++ newline :: a, b, by simp [← hab]⟩

/-! ### The scanner's view of a line -/

theorem lineEnd_of_notMem {pre s : Bytes} (h : newline ∉ s) :
    lineEnd (pre ++ s) pre.length = (pre ++ s).length := by
  simp [lineEnd, List.idxOf?_eq_none_iff.2 h]

theorem lineEnd_append_newline {pre l r : Bytes} (h : newline ∉ l) :
    lineEnd (pre ++ (l ++ newline :: r)) pre.length = pre.length + l.length := by
  have hidx : (l ++ newline :: r).idxOf? newline = some l.length := by
    induction l with
    | nil => simp [List.idxOf?_cons]
    | cons b l ih =>
        simp only [List.mem_cons, not_or] at h
        simp [List.idxOf?_cons, Ne.symm h.1, ih h.2]
  simp [lineEnd, hidx]

theorem slice_append (pre l r : Bytes) :
    slice (pre ++ (l ++ r)) pre.length (pre.length + l.length) = l := by
  simp [slice]

/-! ### The line-level parser -/

/-- A line of text, or a whole generated block. -/
inductive Item
  | line (l : Bytes)
  | gen (b : Block)
  deriving DecidableEq, Repr

/-- The lines an item stands for. -/
def Item.lines : Item → List Bytes
  | .line l => [l]
  | .gen b => openLine b :: (linesOf b.body ++ [closeMarker])

/-- The lines up to the first closing marker that is not the `first` line, and the lines after it;
nothing if an opening marker or the last line comes first. -/
def closeScan : Bool → List Bytes → Option (List Bytes × List Bytes)
  | _, [] => none
  | first, l :: ls =>
      if l = closeMarker ∧ first = false then some ([], ls)
      else if isOpen l ∨ ls = [] then none
      else (closeScan false ls).map fun p => (l :: p.1, p.2)

/-- A successful scan splits the lines at the closing marker. -/
theorem closeScan_eq_some {first : Bool} {ls b r : List Bytes}
    (h : closeScan first ls = some (b, r)) : ls = b ++ closeMarker :: r := by
  induction ls generalizing first b with
  | nil => simp [closeScan] at h
  | cons l ls ih =>
      simp only [closeScan] at h
      split at h
      · rename_i hl
        simp only [Option.some.injEq, Prod.mk.injEq] at h
        obtain ⟨rfl, rfl⟩ := h
        simp [hl.1]
      · split at h
        · simp at h
        · obtain ⟨⟨b', r'⟩, hb, he⟩ := Option.map_eq_some_iff.1 h
          simp only [Prod.mk.injEq] at he
          obtain ⟨rfl, rfl⟩ := he
          rw [ih hb, List.cons_append]

theorem closeScan_length {first : Bool} {ls b r : List Bytes}
    (h : closeScan first ls = some (b, r)) : r.length < ls.length := by
  rw [closeScan_eq_some h]
  simp
  omega

/-- **The line-level parser**: the items of a sequence of lines. -/
def parseLines : List Bytes → List Item
  | [] => []
  | l :: ls =>
      match openMarkerRe l with
      | none => .line l :: parseLines ls
      | some (key, hash) =>
          match _h : closeScan true ls with
          | none => .line l :: parseLines ls
          | some (b, r) => .gen ⟨key, hash, joinLines b⟩ :: parseLines r
  termination_by ls => ls.length
  decreasing_by
    · simp
    · simp
    · have := closeScan_length _h
      simp
      omega

@[simp] theorem parseLines_nil : parseLines [] = [] := by rw [parseLines]

theorem parseLines_of_none {l : Bytes} {ls : List Bytes} (h : openMarkerRe l = none) :
    parseLines (l :: ls) = .line l :: parseLines ls := by
  rw [parseLines]
  split
  · rfl
  · simp_all

theorem parseLines_of_not_close {l : Bytes} {ls : List Bytes} (h : closeScan true ls = none) :
    parseLines (l :: ls) = .line l :: parseLines ls := by
  rw [parseLines]
  split
  · rfl
  · split
    · rfl
    · simp_all

theorem parseLines_of_close {l key hash : Bytes} {ls b r : List Bytes}
    (hm : openMarkerRe l = some (key, hash)) (hc : closeScan true ls = some (b, r)) :
    parseLines (l :: ls) = .gen ⟨key, hash, joinLines b⟩ :: parseLines r := by
  rw [parseLines]
  split
  · simp_all
  · rename_i key' hash' hm'
    obtain ⟨rfl, rfl⟩ : key = key' ∧ hash = hash' := by simpa using hm.symm.trans hm'
    split
    · simp_all
    · rename_i b' r' hc'
      obtain ⟨rfl, rfl⟩ : b = b' ∧ r = r' := by simpa using hc.symm.trans hc'
      rfl

/-- A body has at least one line. -/
theorem closeScan_true_ne_nil {ls b r : List Bytes} (h : closeScan true ls = some (b, r)) :
    b ≠ [] := by
  rintro rfl
  have := closeScan_eq_some h
  simp only [List.nil_append] at this
  subst this
  simp [closeScan] at h

/-! ### The segments of a sequence of items -/

/-- A text segment, unless it would be empty. -/
def flush (t : Bytes) : List Segment := if t = [] then [] else [.text t]

@[simp] theorem flush_nil : flush [] = [] := rfl

/-- The segments of items joined by newlines, with the `pending` text that precedes them. -/
def toSegments (pending : Bytes) : List Item → List Segment
  | [] => flush pending
  | [.line l] => flush (pending ++ l)
  | .line l :: item :: items => toSegments (pending ++ (l ++ [newline])) (item :: items)
  | [.gen b] => flush pending ++ [.block b]
  | .gen b :: item :: items => flush pending ++ .block b :: toSegments [newline] (item :: items)

theorem toSegments_line {items : List Item} (h : items ≠ []) (pending l : Bytes) :
    toSegments pending (.line l :: items) = toSegments (pending ++ (l ++ [newline])) items := by
  cases items with
  | nil => simp at h
  | cons item items => rfl

theorem toSegments_gen {items : List Item} (h : items ≠ []) (pending : Bytes) (b : Block) :
    toSegments pending (.gen b :: items) =
      flush pending ++ .block b :: toSegments [newline] items := by
  cases items with
  | nil => simp at h
  | cons item items => rfl

theorem parseLines_ne_nil {ls : List Bytes} (h : ls ≠ []) : parseLines ls ≠ [] := by
  cases ls with
  | nil => simp at h
  | cons l ls =>
      rw [parseLines]
      split
      · simp
      · split <;> simp

/-! ### The scanner computes the line-level parser -/

/-- The first line of the rest `s` of the content, as the scanner sees it from position `pre`. -/
theorem scan_line (pre s : Bytes) :
    (newline ∉ s ∧ linesOf s = [s] ∧ lineEnd (pre ++ s) pre.length = (pre ++ s).length ∧
      slice (pre ++ s) pre.length (pre ++ s).length = s) ∨
    ∃ l r, newline ∉ l ∧ s = l ++ newline :: r ∧ linesOf s = l :: linesOf r ∧
      lineEnd (pre ++ s) pre.length = pre.length + l.length ∧
      slice (pre ++ s) pre.length (pre.length + l.length) = l ∧
      pre.length + l.length ≠ (pre ++ s).length := by
  rcases linesOf_cases s with ⟨hs, he⟩ | ⟨l, r, hl, rfl, he⟩
  · refine Or.inl ⟨hs, he, lineEnd_of_notMem hs, ?_⟩
    simp [slice]
  · refine Or.inr ⟨l, r, hl, rfl, he, lineEnd_append_newline hl, slice_append _ _ _, ?_⟩
    simp

/-- One round of the inner loop, on a line `l` that ends at `e`. -/
theorem closeLoop_succ {content l : Bytes} {bodyStart fuel q e : ℕ} (hq : q ≤ content.length)
    (he : lineEnd content q = e) (hl : slice content q e = l) :
    closeLoop content bodyStart (fuel + 1) q =
      if l = closeMarker ∧ bodyStart < q then some (some (q, e))
      else if isOpen l ∨ e = content.length then some none
      else closeLoop content bodyStart fuel (e + 1) := by
  simp only [closeLoop, hq, if_true, he, hl]

/-- **The inner loop**: given enough fuel it stops, and its result is that of `Doc.closeScan` on
the lines from `q` on. -/
theorem closeLoop_eq (bodyStart : ℕ) :
    ∀ (fuel : ℕ) (pre s : Bytes), bodyStart ≤ pre.length → s.length < fuel →
      match closeScan (decide (pre.length = bodyStart)) (linesOf s) with
      | none => closeLoop (pre ++ s) bodyStart fuel pre.length = some none
      | some (b, r) => ∃ v, s = b.flatMap (· ++ [newline]) ++ (closeMarker ++ v) ∧
          ((v = [] ∧ r = []) ∨ ∃ v', v = newline :: v' ∧ r = linesOf v') ∧
          closeLoop (pre ++ s) bodyStart fuel pre.length =
            some (some (pre.length + (b.flatMap (· ++ [newline])).length,
              pre.length + (b.flatMap (· ++ [newline])).length + closeMarker.length)) := by
  intro fuel
  induction fuel with
  | zero => intro pre s _ h; omega
  | succ fuel ih =>
      intro pre s hb hf
      have hq : pre.length ≤ (pre ++ s).length := by simp
      -- "not the first line of the body" is the same on both sides
      have hfirst : decide (pre.length = bodyStart) = false ↔ bodyStart < pre.length := by
        simp; omega
      rcases scan_line pre s with ⟨hs, hls, he, hl⟩ | ⟨l, r, hnl, rfl, hls, he, hl, hne⟩
      · rw [hls, closeLoop_succ hq he hl, closeScan]
        simp only [hfirst]
        by_cases hclose : s = closeMarker ∧ bodyStart < pre.length
        · simp only [hclose, and_self, if_true]
          exact ⟨[], by simp, Or.inl (by simp), by simp⟩
        · simp only [hclose, if_false, or_true, if_true]
      · rw [hls, closeLoop_succ hq he hl, closeScan]
        simp only [hfirst]
        by_cases hclose : l = closeMarker ∧ bodyStart < pre.length
        · simp only [hclose, and_self, if_true]
          exact ⟨newline :: r, by simp, Or.inr ⟨r, rfl, rfl⟩, by simp⟩
        · by_cases hopen : isOpen l = true
          · simp only [hclose, if_false, hopen, true_or, if_true]
          · simp only [hclose, if_false, hopen, hne, linesOf_ne_nil, Bool.false_eq_true, or_self]
            have hpre : pre ++ (l ++ newline :: r) = (pre ++ (l ++ [newline])) ++ r := by simp
            have hlen : pre.length + l.length + 1 = (pre ++ (l ++ [newline])).length := by
              simp; omega
            have := ih (pre ++ (l ++ [newline])) r (by omega) (by simp at hf; omega)
            rw [decide_eq_false (by omega)] at this
            rw [hpre, hlen]
            cases hscan : closeScan false (linesOf r) with
            | none => rw [hscan] at this; simpa using this
            | some p =>
                obtain ⟨b, r'⟩ := p
                rw [hscan] at this
                obtain ⟨v, hv, hr, heq⟩ := this
                refine ⟨v, by simp [hv], hr, ?_⟩
                rw [heq]
                simp
                omega

theorem flatMap_newline {b : List Bytes} (h : b ≠ []) :
    b.flatMap (· ++ [newline]) = joinLines b ++ [newline] := by
  induction b with
  | nil => simp at h
  | cons l b ih =>
      by_cases hb : b = []
      · simp [hb]
      · rw [List.flatMap_cons, ih hb, joinLines_cons hb]
        simp

/-- The outer loop stops when the position is past the end. -/
theorem parseLoop_done {content : Bytes} (fuel : ℕ) {p : ℕ} {pre : Bytes} (pending : Bytes)
    (segs : List Segment)
    (hc : content = pre ++ pending) (hp : content.length ≤ p) :
    parseLoop content (fuel + 1) p pre.length segs = some (segs ++ flush pending) := by
  have hlt : ¬ p < content.length := by omega
  have hts : pre.length < content.length ↔ pending ≠ [] := by
    rw [hc, List.length_append, ← List.length_pos_iff]
    omega
  have hslice : slice content pre.length content.length = pending := by
    simp [slice, hc]
  simp only [parseLoop, hlt, if_false, hts, hslice, flush]
  by_cases h : pending = [] <;> simp [h]

/-- One round of the outer loop on a line that opens no block. -/
theorem parseLoop_skip {content l : Bytes} {fuel p e textStart : ℕ} {segs : List Segment}
    (hp : p < content.length) (he : lineEnd content p = e) (hl : slice content p e = l)
    (h : openMarkerRe l = none ∨ e = content.length ∨
      closeLoop content (e + 1) (content.length + 1) (e + 1) = some none) :
    parseLoop content (fuel + 1) p textStart segs =
      parseLoop content fuel (e + 1) textStart segs := by
  simp only [parseLoop, hp, if_true, he, hl]
  cases hm : openMarkerRe l with
  | none => rfl
  | some g =>
      rcases h with h | h | h
      · simp [hm] at h
      · simp [h]
      · simp only [h, ite_self]

/-- One round of the outer loop on the first line of a block. -/
theorem parseLoop_block {content l key hash : Bytes} {fuel p e textStart closeAt closeEnd : ℕ}
    {segs : List Segment} (hp : p < content.length) (he : lineEnd content p = e)
    (hl : slice content p e = l) (hm : openMarkerRe l = some (key, hash))
    (hne : e ≠ content.length)
    (hc : closeLoop content (e + 1) (content.length + 1) (e + 1) = some (some (closeAt, closeEnd))) :
    parseLoop content (fuel + 1) p textStart segs =
      parseLoop content fuel (closeEnd + 1) closeEnd
        ((if textStart < p then segs ++ [.text (slice content textStart p)] else segs) ++
          [.block ⟨key, hash, slice content (e + 1) (closeAt - 1)⟩]) := by
  simp only [parseLoop, hp, if_true, he, hl, hm, hne, if_false, hc]

/-- **The outer loop**: given enough fuel it stops, with the segments of the line-level parser's
items for the rest `s` of the content, the text pending since the last block being `pending`. -/
theorem parseLoop_eq : ∀ (fuel : ℕ) (pre pending s : Bytes) (segs : List Segment),
    s.length < fuel →
    parseLoop (pre ++ (pending ++ s)) fuel (pre.length + pending.length) pre.length segs =
      some (segs ++ toSegments pending (parseLines (linesOf s))) := by
  intro fuel
  induction fuel with
  | zero => intro pre pending s segs h; omega
  | succ fuel ih =>
      intro pre pending s segs hf
      by_cases hs0 : s = []
      · subst hs0
        rw [parseLoop_done _ pending _ (by simp) (by simp)]
        simp [parseLines_of_none, openMarkerRe, stripPrefix, bytes, toSegments]
      have hpos : 0 < s.length := List.length_pos_iff.2 hs0
      have hp : pre.length + pending.length < (pre ++ (pending ++ s)).length := by simp; omega
      have hassoc : pre ++ (pending ++ s) = (pre ++ pending) ++ s := by simp
      have hplen : pre.length + pending.length = (pre ++ pending).length := by simp
      rcases scan_line (pre ++ pending) s with
        ⟨hs, hls, he, hl⟩ | ⟨l, r, hnl, rfl, hls, he, hl, hne⟩
      · -- the last line is text, whatever it matches
        rw [← hassoc, ← hplen] at he hl
        obtain ⟨fuel, rfl⟩ : ∃ k, fuel = k + 1 := ⟨fuel - 1, by omega⟩
        rw [parseLoop_skip hp he hl (Or.inr (Or.inl rfl)),
          parseLoop_done _ (pending ++ s) _ rfl (by omega), hls,
          parseLines_of_not_close (by simp [closeScan])]
        simp [toSegments]
      · rw [← hassoc, ← hplen] at he hl hne
        have hrf : r.length < fuel := by simp at hf; omega
        -- a line that opens no block joins the pending text
        have htext : parseLines (linesOf (l ++ newline :: r)) = .line l :: parseLines (linesOf r) →
            (openMarkerRe l = none ∨ closeLoop (pre ++ (pending ++ (l ++ newline :: r)))
              (pre.length + pending.length + l.length + 1)
              ((pre ++ (pending ++ (l ++ newline :: r))).length + 1)
              (pre.length + pending.length + l.length + 1) = some none) →
            parseLoop (pre ++ (pending ++ (l ++ newline :: r))) (fuel + 1)
              (pre.length + pending.length) pre.length segs =
              some (segs ++ toSegments pending (parseLines (linesOf (l ++ newline :: r)))) := by
          intro hparse hskip
          rw [parseLoop_skip hp he hl (hskip.imp_right Or.inr), hparse,
            toSegments_line (parseLines_ne_nil (linesOf_ne_nil r)),
            ← ih pre (pending ++ (l ++ [newline])) r segs hrf]
          congr 1
          · simp
          · simp; omega
        rw [hls]
        cases hm : openMarkerRe l with
        | none =>
            rw [← hls]
            exact htext (by rw [hls, parseLines_of_none hm]) (Or.inl hm)
        | some g =>
            obtain ⟨key, hash⟩ := g
            have hclose := closeLoop_eq (pre ++ (pending ++ (l ++ [newline]))).length
              ((pre ++ (pending ++ (l ++ newline :: r))).length + 1)
              (pre ++ (pending ++ (l ++ [newline]))) r le_rfl (by simp; omega)
            have hcat : pre ++ (pending ++ (l ++ [newline])) ++ r =
                pre ++ (pending ++ (l ++ newline :: r)) := by simp
            have hstart : (pre ++ (pending ++ (l ++ [newline]))).length =
                pre.length + pending.length + l.length + 1 := by simp; omega
            rw [decide_eq_true rfl, hcat, hstart] at hclose
            cases hscan : closeScan true (linesOf r) with
            | none =>
                rw [hscan] at hclose
                rw [← hls]
                exact htext (by rw [hls, parseLines_of_not_close hscan]) (Or.inr hclose)
            | some q =>
                obtain ⟨b, r'⟩ := q
                rw [hscan] at hclose
                obtain ⟨v, hv, hr', heq⟩ := hclose
                have hb := closeScan_true_ne_nil hscan
                rw [flatMap_newline hb] at hv heq
                -- the body is what lies between the two marker lines
                have hbody : slice (pre ++ (pending ++ (l ++ newline :: r)))
                    (pre.length + pending.length + l.length + 1)
                    (pre.length + pending.length + l.length + 1 +
                      (joinLines b ++ [newline]).length - 1) = joinLines b := by
                  rw [← hstart, ← hcat, hv]
                  simpa [List.append_assoc] using
                    slice_append (pre ++ (pending ++ (l ++ [newline]))) (joinLines b)
                      (newline :: (closeMarker ++ v))
                have htxt : slice (pre ++ (pending ++ (l ++ newline :: r))) pre.length
                    (pre.length + pending.length) = pending := slice_append _ _ _
                have hflush : (if pre.length < pre.length + pending.length then
                    segs ++ [Segment.text pending] else segs) = segs ++ flush pending := by
                  by_cases h : pending = []
                  · simp [h, flush]
                  · simp [h, flush, List.length_pos_iff]
                rw [parseLoop_block hp he hl hm hne heq, hbody, htxt, hflush,
                  parseLines_of_close hm hscan]
                rcases hr' with ⟨rfl, rfl⟩ | ⟨v', rfl, rfl⟩
                · obtain ⟨fuel, rfl⟩ : ∃ k, fuel = k + 1 := ⟨fuel - 1, by
                    have : 0 < r.length := by rw [hv]; simp
                    omega⟩
                  have hdone : ∀ c : Bytes, parseLoop c (fuel + 1) (c.length + 1) c.length
                      (segs ++ flush pending ++ [.block ⟨key, hash, joinLines b⟩]) =
                      some (segs ++ flush pending ++ [.block ⟨key, hash, joinLines b⟩] ++
                        flush []) := fun c => parseLoop_done _ [] _ (by simp) (by omega)
                  have hend : pre.length + pending.length + l.length + 1 +
                      (joinLines b ++ [newline]).length + closeMarker.length =
                      (pre ++ (pending ++ (l ++ newline :: r))).length := by
                    rw [hv]; simp; omega
                  rw [hend, hdone]
                  simp [toSegments]
                · have := ih (pre ++ (pending ++ (l ++ newline :: (joinLines b ++ [newline] ++
                    closeMarker)))) [newline] v'
                    (segs ++ flush pending ++ [.block ⟨key, hash, joinLines b⟩])
                    (by rw [hv] at hrf; simp at hrf; omega)
                  rw [toSegments_gen (parseLines_ne_nil (linesOf_ne_nil v'))]
                  rw [hv]
                  simp only [List.append_assoc, List.cons_append, List.nil_append] at this ⊢
                  rw [← this]
                  congr 1
                  · simp; omega
                  · simp; omega

/-- **The scanner computes the line-level parser.** -/
theorem parseBlocks_eq (content : Bytes) :
    parseBlocks content = toSegments [] (parseLines (linesOf content)) := by
  have := parseLoop_eq (content.length + 1) [] [] content [] (by omega)
  simp only [List.nil_append, List.length_nil, Nat.zero_add] at this
  simp [parseBlocks, this]

/-! ### What the line-level parser returns -/

/-- A block that is read back as it is printed: its key and hash fit the marker grammar, no line of
its body opens a block, and only the first may be a closing marker. -/
structure GoodBlock (b : Block) : Prop where
  key : KeyOk b.key
  hash : HashOk b.hash
  no_open : ∀ l ∈ linesOf b.body, isOpen l = false
  no_close : closeMarker ∉ (linesOf b.body).tail

/-- Items in which no text line opens a block: after a text line that matches the opening marker
the scan for a closing marker fails. -/
def Quiet : List Item → Prop
  | [] => True
  | .line l :: items =>
      newline ∉ l ∧ (isOpen l = true → closeScan true (items.flatMap Item.lines) = none) ∧
        Quiet items
  | .gen b :: items => GoodBlock b ∧ Quiet items

/-- The body of a successful scan holds no marker line, but possibly a closing one at its start. -/
theorem closeScan_body {first : Bool} {ls b r : List Bytes} (h : closeScan first ls = some (b, r)) :
    (∀ l ∈ b, isOpen l = false) ∧ closeMarker ∉ (if first then b.tail else b) := by
  induction ls generalizing first b with
  | nil => simp [closeScan] at h
  | cons l ls ih =>
      simp only [closeScan] at h
      split at h
      · rename_i hl
        simp only [Option.some.injEq, Prod.mk.injEq] at h
        obtain ⟨rfl, rfl⟩ := h
        simp
      · rename_i hnot
        split at h
        · simp at h
        · rename_i hopen
          obtain ⟨⟨b', r'⟩, hb, he⟩ := Option.map_eq_some_iff.1 h
          simp only [Prod.mk.injEq] at he
          obtain ⟨rfl, rfl⟩ := he
          obtain ⟨ih₁, ih₂⟩ := ih hb
          have hl : isOpen l = false := by simpa using fun h' => hopen (Or.inl h')
          refine ⟨by simpa [hl] using ih₁, ?_⟩
          cases first with
          | true => simpa using ih₂
          | false =>
              have : closeMarker ≠ l := fun hc => hnot ⟨hc.symm, rfl⟩
              simpa [this] using ih₂

/-- The scan stops at the first closing marker after a body without marker lines. -/
theorem closeScan_append {first : Bool} {b : List Bytes} (r : List Bytes)
    (hopen : ∀ l ∈ b, isOpen l = false) (hclose : closeMarker ∉ (if first then b.tail else b))
    (hne : first = true → b ≠ []) : closeScan first (b ++ closeMarker :: r) = some (b, r) := by
  induction b generalizing first with
  | nil =>
      cases first with
      | true => simp at hne
      | false => simp [closeScan]
  | cons l b ih =>
      have hl := hopen l List.mem_cons_self
      have hno : ¬ (l = closeMarker ∧ first = false) := by
        rintro ⟨rfl, rfl⟩
        simp at hclose
      have htail : closeMarker ∉ (if false = true then b.tail else b) := by
        cases first with
        | true => simpa using hclose
        | false => simp only [Bool.false_eq_true, if_false, List.mem_cons, not_or] at hclose ⊢; exact hclose.2
      have := ih (fun l' h' => hopen l' (List.mem_cons_of_mem l h')) htail (by simp)
      simp [closeScan, hno, hl, this]

/-- The text of a body read between two markers splits into its lines again. -/
theorem linesOf_joinLines_body {ls b r : List Bytes} (h : closeScan true ls = some (b, r))
    (hnl : ∀ l ∈ ls, newline ∉ l) : linesOf (joinLines b) = b := by
  refine linesOf_joinLines (closeScan_true_ne_nil h) fun l hl => hnl l ?_
  rw [closeScan_eq_some h]
  exact List.mem_append_left _ hl

/-- **The line-level parser loses nothing**: its items stand for the lines it was given. -/
theorem parseLines_lines {ls : List Bytes} (hnl : ∀ l ∈ ls, newline ∉ l) :
    (parseLines ls).flatMap Item.lines = ls := by
  induction ls using parseLines.induct with
  | case1 => simp
  | case2 l ls hm ih =>
      rw [parseLines_of_none hm]
      simp [Item.lines, ih fun l' h' => hnl l' (List.mem_cons_of_mem l h')]
  | case3 l ls key hash hm hc ih =>
      rw [parseLines_of_not_close hc]
      simp [Item.lines, ih fun l' h' => hnl l' (List.mem_cons_of_mem l h')]
  | case4 l ls key hash hm b r hc ih =>
      have hls : ∀ l' ∈ ls, newline ∉ l' := fun l' h' => hnl l' (List.mem_cons_of_mem l h')
      have hr : ∀ l' ∈ r, newline ∉ l' := fun l' h' => hls l' (by
        rw [closeScan_eq_some hc]; simp [h'])
      rw [parseLines_of_close hm hc]
      simp only [List.flatMap_cons, Item.lines, ih hr, openLine_of_openMarkerRe _ hm,
        linesOf_joinLines_body hc hls]
      simp [closeScan_eq_some hc]

/-- **The parsed items are quiet**: what could open a block has been taken as one. -/
theorem quiet_parseLines {ls : List Bytes} (hnl : ∀ l ∈ ls, newline ∉ l) :
    Quiet (parseLines ls) := by
  induction ls using parseLines.induct with
  | case1 => simp [Quiet]
  | case2 l ls hm ih =>
      rw [parseLines_of_none hm]
      refine ⟨hnl l List.mem_cons_self, ?_, ih fun l' h' => hnl l' (List.mem_cons_of_mem l h')⟩
      simp [isOpen, hm]
  | case3 l ls key hash hm hc ih =>
      have hls : ∀ l' ∈ ls, newline ∉ l' := fun l' h' => hnl l' (List.mem_cons_of_mem l h')
      rw [parseLines_of_not_close hc]
      refine ⟨hnl l List.mem_cons_self, fun _ => ?_, ih hls⟩
      rwa [parseLines_lines hls]
  | case4 l ls key hash hm b r hc ih =>
      have hls : ∀ l' ∈ ls, newline ∉ l' := fun l' h' => hnl l' (List.mem_cons_of_mem l h')
      rw [parseLines_of_close hm hc]
      obtain ⟨hk, hh, -⟩ := openMarkerRe_eq_some.1 hm
      have hbody := closeScan_body hc
      refine ⟨⟨hk, hh, ?_, ?_⟩, ih fun l' h' => hls l' (by rw [closeScan_eq_some hc]; simp [h'])⟩
      · simpa [linesOf_joinLines_body hc hls] using hbody.1
      · simpa [linesOf_joinLines_body hc hls] using hbody.2

/-- **Quiet items are read back.** -/
theorem parseLines_eq_self {items : List Item} (h : Quiet items) :
    parseLines (items.flatMap Item.lines) = items := by
  induction items with
  | nil => simp
  | cons item items ih =>
      cases item with
      | line l =>
          obtain ⟨-, hopen, hq⟩ := h
          simp only [List.flatMap_cons, Item.lines, List.singleton_append]
          cases hm : openMarkerRe l with
          | none => rw [parseLines_of_none hm, ih hq]
          | some g => rw [parseLines_of_not_close (hopen (by simp [isOpen, hm])), ih hq]
      | gen b =>
          obtain ⟨hb, hq⟩ := h
          have hc : closeScan true (linesOf b.body ++ closeMarker :: items.flatMap Item.lines) =
              some (linesOf b.body, items.flatMap Item.lines) :=
            closeScan_append _ hb.no_open hb.no_close (by simp)
          simp only [List.flatMap_cons, Item.lines, List.cons_append, List.append_assoc,
            List.nil_append]
          rw [parseLines_of_close (openMarkerRe_openLine hb.key hb.hash) hc, ih hq,
            joinLines_linesOf]

/-- The items of a doc. -/
def itemsOf (content : Bytes) : List Item := parseLines (linesOf content)

theorem parseBlocks_eq_toSegments (content : Bytes) :
    parseBlocks content = toSegments [] (itemsOf content) := parseBlocks_eq content

theorem quiet_itemsOf (content : Bytes) : Quiet (itemsOf content) :=
  quiet_parseLines fun _ h => newline_notMem_of_mem_linesOf h

theorem itemsOf_ne_nil (content : Bytes) : itemsOf content ≠ [] :=
  parseLines_ne_nil (linesOf_ne_nil content)

theorem itemsOf_lines (content : Bytes) : (itemsOf content).flatMap Item.lines = linesOf content :=
  parseLines_lines fun _ h => newline_notMem_of_mem_linesOf h

end WiseLabz.Doc
