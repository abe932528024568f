/-
**The generated blocks that the editor shows.**

The web client looks for the generated blocks of a doc itself, line by line over the UTF-16 text that
it edits, to mark them in the editor.  It finds the blocks that the scanner of
`WiseLabz/Doc/Blocks.lean` finds in the UTF-8 bytes of the same text, on the same lines.

Main definitions:

* `Doc.findGenBlocks` — **the client's search**;
* `Doc.blockRanges` — the lines of the blocks among the segments of a doc.

Main results:

* `Doc.openRe_utf16` — the client's pattern matches the lines that the scanner's pattern matches;
* `Doc.findFrom_eq` — the search computes the line-level parser;
* `Doc.editor_blocks` — **the editor and the scanner see the same blocks**.
-/

import WiseLabz.Lib.Unicode
import WiseLabz.Doc.Lines

set_option relaxedAutoImplicit false
set_option autoImplicit false

namespace WiseLabz.Doc

open Lib

/-! ### The client's search -/

/-- The class `[A-Za-z0-9._-]`, of code units. -/
def isKeyUnit (u : UInt16) : Bool :=
  (65 ≤ u && u ≤ 90) || (97 ≤ u && u ≤ 122) || (48 ≤ u && u ≤ 57) || u == 46 || u == 95 || u == 45

/-- The class `[0-9a-f]`, of code units. -/
def isHexUnit (u : UInt16) : Bool := (48 ≤ u && u ≤ 57) || (97 ≤ u && u ≤ 102)

/-- `OPEN_RE.exec`: the key of an opening marker line. -/
def openRe (line : List UInt16) : Option (List UInt16) :=
  match line.dropPrefix? (widen (bytes "<!-- wl:gen key=\"")) with
  | none => none
  | some r =>
      match (r.dropWhile isKeyUnit).dropPrefix? (widen (bytes "\" h=\"")) with
      | none => none
      | some t =>
          if r.takeWhile isKeyUnit ≠ [] ∧ (t.take 12).length = 12 ∧ (t.take 12).all isHexUnit ∧
              t.drop 12 = widen (bytes "\" -->") then
            some (r.takeWhile isKeyUnit)
          else none

/-- `CLOSE`. -/
def closeLine : List UInt16 := widen closeMarker

/-- A generated block: its key, and the numbers of its marker lines, from 1 on. -/
structure GenBlockRange (key : Type) where
  key : key
  openLine : ℕ
  closeLine : ℕ
  deriving DecidableEq, Repr

/-- The inner loop: the closing marker line of the block that opens on line `i`, looked for from
line `j` on. -/
def findClose (lines : List (List UInt16)) (i j : ℕ) : Option ℕ :=
  if h : j < lines.length then
    if lines[j] = closeLine ∧ i + 1 < j then some j
    else if (openRe lines[j]).isSome then none
    else findClose lines i (j + 1)
  else none
termination_by lines.length - j

theorem le_of_findClose {lines : List (List UInt16)} {i j k : ℕ}
    (h : findClose lines i j = some k) : j ≤ k ∧ k < lines.length := by
  fun_induction findClose lines i j with
  | case1 j hj hclose => exact Option.some.inj h ▸ ⟨le_refl j, hj⟩
  | case2 => cases h
  | case3 j hj hclose hopen ih => exact ⟨Nat.le_of_succ_le (ih h).1, (ih h).2⟩
  | case4 => cases h

/-- The outer loop, from line `i` on. -/
def findFrom (lines : List (List UInt16)) (i : ℕ) : List (GenBlockRange (List UInt16)) :=
  if h : i < lines.length then
    match openRe lines[i] with
    | none => findFrom lines (i + 1)
    | some key =>
        match _h : findClose lines i (i + 1) with
        | some j => ⟨key, i + 1, j + 1⟩ :: findFrom lines (j + 1)
        | none => findFrom lines (i + 1)
  else []
termination_by lines.length - i
decreasing_by
  · omega
  · have := le_of_findClose _h
    omega
  · omega

/-- **The client's search** for generated blocks. -/
def findGenBlocks (content : List UInt16) : List (GenBlockRange (List UInt16)) :=
  findFrom (content.splitOn newline.toUInt16) 0

/-! ### The lines of the blocks of a doc -/

/-- The lines of the blocks among segments, the first of which begins on line `n`. -/
def blockRanges : ℕ → List Segment → List (GenBlockRange Bytes)
  | _, [] => []
  | n, .text t :: segs => blockRanges (n + (renderSegment (.text t)).count newline) segs
  | n, .block b :: segs =>
      ⟨b.key, n, n + (renderSegment (.block b)).count newline⟩ ::
        blockRanges (n + (renderSegment (.block b)).count newline) segs

/-- A range under the key that the client sees. -/
def GenBlockRange.widen (r : GenBlockRange Bytes) : GenBlockRange (List UInt16) :=
  ⟨Lib.widen r.key, r.openLine, r.closeLine⟩

/-- The lines of the blocks among items, the first of which begins on line `n`. -/
def itemRanges : ℕ → List Item → List (GenBlockRange Bytes)
  | _, [] => []
  | n, .line _ :: items => itemRanges (n + 1) items
  | n, .gen b :: items =>
      ⟨b.key, n, n + (renderSegment (.block b)).count newline⟩ ::
        itemRanges (n + (renderSegment (.block b)).count newline + 1) items

@[simp] theorem blockRanges_flush (n : ℕ) (t : Bytes) (segs : List Segment) :
    blockRanges n (flush t ++ segs) = blockRanges (n + t.count newline) segs := by
  unfold flush
  split
  · next h => rw [h, List.nil_append, List.count_nil, Nat.add_zero]
  · rfl

/-- The blocks of the segments are on the lines of those of the items. -/
theorem blockRanges_toSegments {items : List Item} (hlines : ∀ l, .line l ∈ items → newline ∉ l)
    (n : ℕ) (pending : Bytes) :
    blockRanges n (toSegments pending items) = itemRanges (n + pending.count newline) items := by
  induction items generalizing n pending with
  | nil =>
      have := blockRanges_flush n pending []
      rwa [List.append_nil] at this
  | cons item items ih =>
      have hrest : ∀ l, .line l ∈ items → newline ∉ l := fun l hl =>
        hlines l (List.mem_cons_of_mem _ hl)
      cases item with
      | line l =>
          have hl : l.count newline = 0 := List.count_eq_zero.2 (hlines l List.mem_cons_self)
          by_cases hne : items = []
          · subst hne
            have := blockRanges_flush n (pending ++ l) []
            rw [List.append_nil] at this
            exact this
          · rw [toSegments_line hne, ih hrest, itemRanges, List.count_append, List.count_append, hl]
            simp [Nat.add_assoc]
      | gen b =>
          by_cases hne : items = []
          · subst hne
            rw [toSegments, blockRanges_flush, itemRanges]
            rfl
          · rw [toSegments_gen hne, blockRanges_flush, blockRanges, ih hrest, itemRanges,
              List.count_singleton_self]

/-! ### The patterns -/

theorem toUInt16_inj {a b : UInt8} (h : a.toUInt16 = b.toUInt16) : a = b :=
  asciiCompatible_utf16.inj h

theorem isKeyUnit_toUInt16 (b : UInt8) : isKeyUnit b.toUInt16 = isKeyChar b := by
  rw [Bool.eq_iff_iff]
  simp only [isKeyUnit, isKeyChar, Bool.or_eq_true, Bool.and_eq_true, decide_eq_true_eq,
    beq_iff_eq, UInt16.le_iff_toNat_le, UInt8.le_iff_toNat_le, ← UInt16.toNat_inj,
    ← UInt8.toNat_inj, UInt8.toNat_toUInt16]
  rfl

theorem isHexUnit_toUInt16 (b : UInt8) : isHexUnit b.toUInt16 = isHexChar b := by
  rw [Bool.eq_iff_iff]
  simp only [isHexUnit, isHexChar, Bool.or_eq_true, Bool.and_eq_true, decide_eq_true_eq,
    UInt16.le_iff_toNat_le, UInt8.le_iff_toNat_le, UInt8.toNat_toUInt16]
  rfl

theorem lt_of_isKeyUnit {u : UInt16} (h : isKeyUnit u = true) : u.toNat < 128 := by
  simp only [isKeyUnit, Bool.or_eq_true, Bool.and_eq_true, decide_eq_true_eq, beq_iff_eq,
    UInt16.le_iff_toNat_le, ← UInt16.toNat_inj] at h
  simp at h
  omega

theorem lt_of_isHexUnit {u : UInt16} (h : isHexUnit u = true) : u.toNat < 128 := by
  simp only [isHexUnit, Bool.or_eq_true, Bool.and_eq_true, decide_eq_true_eq,
    UInt16.le_iff_toNat_le] at h
  simp at h
  omega

theorem widen_inj {s s' : Bytes} (h : widen s = widen s') : s = s' :=
  List.map_injective_iff.2 (fun _ _ => toUInt16_inj) h

/-- A prefix of an ASCII text. -/
theorem dropPrefix?_widen (s p : Bytes) :
    (widen s).dropPrefix? (widen p) = (stripPrefix p s).map widen := by
  induction p generalizing s with
  | nil => cases s <;> rfl
  | cons b p ih =>
      cases s with
      | nil => rfl
      | cons a s =>
          rw [widen, widen, List.map_cons, List.map_cons, List.dropPrefix?, stripPrefix]
          by_cases hab : a = b
          · subst hab
            rw [if_pos (beq_self_eq_true _), if_pos rfl]
            exact ih s
          · have hne : a.toUInt16 ≠ b.toUInt16 := fun h => hab (toUInt16_inj h)
            rw [if_neg (by simpa using hne), if_neg (Ne.symm hab)]
            rfl

theorem takeWhile_widen (s : Bytes) :
    (widen s).takeWhile isKeyUnit = widen (s.takeWhile isKeyChar) := by
  rw [widen, List.takeWhile_map]
  exact congrArg widen (congrArg (List.takeWhile · s) (funext isKeyUnit_toUInt16))

theorem dropWhile_widen (s : Bytes) :
    (widen s).dropWhile isKeyUnit = widen (s.dropWhile isKeyChar) := by
  rw [widen, List.dropWhile_map]
  exact congrArg widen (congrArg (List.dropWhile · s) (funext isKeyUnit_toUInt16))

/-- The two patterns on an ASCII text. -/
theorem openRe_widen (s : Bytes) : openRe (widen s) = (openMarkerRe s).map fun p => widen p.1 := by
  rw [openRe, dropPrefix?_widen, openMarkerRe]
  cases stripPrefix (bytes "<!-- wl:gen key=\"") s with
  | none => rfl
  | some r =>
      simp only [Option.map_some]
      rw [dropWhile_widen, dropPrefix?_widen, takeWhile_widen]
      cases stripPrefix (bytes "\" h=\"") (r.dropWhile isKeyChar) with
      | none => rfl
      | some t =>
          simp only [Option.map_some]
          have hkey : widen (r.takeWhile isKeyChar) ≠ [] ↔ KeyOk (r.takeWhile isKeyChar) := by
            rw [Ne, widen, List.map_eq_nil_iff]
            exact ⟨fun h => ⟨h, fun b hb => List.mem_takeWhile_imp hb⟩, fun h => h.1⟩
          have hhash : ((widen t).take 12).length = 12 ∧ ((widen t).take 12).all isHexUnit ↔
              HashOk (t.take 12) := by
            rw [widen, ← List.map_take, List.length_map, List.all_map, HashOk, List.all_eq_true]
            simp only [Function.comp_apply, isHexUnit_toUInt16]
          have hend : (widen t).drop 12 = widen (bytes "\" -->") ↔ t.drop 12 = bytes "\" -->" := by
            rw [widen, ← List.map_drop]
            exact ⟨fun h => widen_inj h, fun h => congrArg widen h⟩
          simp only [hkey, hend, ← and_assoc, ← hhash]
          split <;> rfl

/-- The client's pattern matches ASCII texts only. -/
theorem lt_of_openRe {line key : List UInt16} (h : openRe line = some key) :
    ∀ u ∈ line, u.toNat < 128 := by
  have hstart : ∀ {l p r : List UInt16}, l.dropPrefix? p = some r → l = p ++ r := by
    intro l p r hl
    obtain ⟨p', rfl, hp⟩ := List.dropPrefix?_eq_some_iff.1 hl
    rw [eq_of_beq hp]
  have hliteral : ∀ {s : Bytes}, (∀ b ∈ s, b < 128) → ∀ u ∈ widen s, u.toNat < 128 := by
    intro s hs u hu
    obtain ⟨b, hb, rfl⟩ := List.mem_map.1 hu
    rw [UInt8.toNat_toUInt16]
    exact UInt8.lt_iff_toNat_lt.1 (hs b hb)
  unfold openRe at h
  split at h
  · cases h
  · next r hr =>
      split at h
      · cases h
      · next t ht =>
          split at h
          · next hok =>
              obtain ⟨-, -, hhex, hend⟩ := hok
              have hr' := List.takeWhile_append_dropWhile (p := isKeyUnit) (l := r)
              rw [hstart ht] at hr'
              have ht' := List.take_append_drop 12 t
              rw [hend] at ht'
              rw [hstart hr, ← hr', ← ht']
              intro u hu
              simp only [List.mem_append] at hu
              rcases hu with hu | hu | hu | hu | hu
              · exact hliteral (by decide) u hu
              · exact lt_of_isKeyUnit (List.mem_takeWhile_imp hu)
              · exact hliteral (by decide) u hu
              · exact lt_of_isHexUnit (List.all_eq_true.1 hhex u hu)
              · exact hliteral (by decide) u hu
          · cases h

/-- A text whose code units are ASCII. -/
theorem exists_widen {line : List UInt16} (h : ∀ u ∈ line, u.toNat < 128) :
    ∃ s : Bytes, (∀ b ∈ s, b < 128) ∧ line = widen s := by
  refine ⟨line.map UInt16.toUInt8, fun b hb => ?_, ?_⟩
  · obtain ⟨u, hu, rfl⟩ := List.mem_map.1 hb
    have := h u hu
    rw [UInt8.lt_iff_toNat_lt, UInt16.toNat_toUInt8]
    exact lt_of_le_of_lt (Nat.mod_le _ _) this
  · rw [widen, List.map_map]
    refine (List.map_id line).symm.trans (List.map_congr_left fun u hu => ?_)
    rw [id, Function.comp_apply, ← UInt16.toNat_inj, UInt8.toNat_toUInt16, UInt16.toNat_toUInt8,
      Nat.mod_eq_of_lt ((h u hu).trans (by decide))]

/-- **The patterns match the same lines**, with the same keys. -/
theorem openRe_utf16 (t : List Char) :
    openRe (utf16 t) = (openMarkerRe (utf8 t)).map fun p => widen p.1 := by
  by_cases hascii : ∀ b ∈ utf8 t, b < 128
  · rw [(utf8_eq_iff_utf16_eq hascii).1 rfl, openRe_widen]
  · have h8 : openMarkerRe (utf8 t) = none := by
      cases h : openMarkerRe (utf8 t) with
      | none => rfl
      | some p =>
          obtain ⟨hkey, hhash, hline⟩ := openMarkerRe_eq_some.1 h
          refine absurd (fun b hb => ?_) hascii
          rw [hline] at hb
          simp only [List.mem_append] at hb
          have hliteral : ∀ {s : Bytes}, (s.all fun b => b < 128) = true → b ∈ s → b < 128 :=
            fun hs hb => of_decide_eq_true (List.all_eq_true.1 hs b hb)
          rcases hb with hb | hb | hb | hb | hb
          · exact hliteral (by decide) hb
          · exact UInt8.lt_trans (isKeyChar_spec (hkey.2 b hb)).2.2.2 (by decide)
          · exact hliteral (by decide) hb
          · exact UInt8.lt_trans (isHexChar_spec (hhash.2 b hb)).2.2.2 (by decide)
          · exact hliteral (by decide) hb
    have h16 : openRe (utf16 t) = none := by
      cases h : openRe (utf16 t) with
      | none => rfl
      | some key =>
          obtain ⟨s, hs, hline⟩ := exists_widen (lt_of_openRe h)
          rw [(utf8_eq_iff_utf16_eq hs).2 hline] at hascii
          exact absurd hs hascii
    rw [h8, h16]
    rfl

theorem utf16_eq_closeLine (t : List Char) : utf16 t = closeLine ↔ utf8 t = closeMarker :=
  (utf8_eq_iff_utf16_eq (by decide)).symm

/-! ### The search computes the line-level parser -/

/-- **The inner loop**, from line `j` on, is a scan of those lines. -/
theorem findClose_eq (lines : List (List Char)) {i j : ℕ} (hij : i < j) :
    closeScan (decide (j = i + 1)) ((lines.map utf8).drop j) =
      (findClose (lines.map utf16) i j).map fun k =>
        (((lines.map utf8).drop j).take (k - j), (lines.map utf8).drop (k + 1)) := by
  fun_induction findClose (lines.map utf16) i j with
  | case1 j hj hclose =>
      have hj8 : j < (lines.map utf8).length := by simpa using hj
      rw [List.getElem_map, utf16_eq_closeLine] at hclose
      rw [List.drop_eq_getElem_cons hj8, closeScan, if_pos]
      · simp
      · exact ⟨by rw [List.getElem_map]; exact hclose.1, decide_eq_false (by omega)⟩
  | case2 j hj hclose hopen =>
      have hj8 : j < (lines.map utf8).length := by simpa using hj
      rw [List.getElem_map, utf16_eq_closeLine] at hclose
      rw [List.getElem_map, openRe_utf16, Option.isSome_map] at hopen
      rw [List.drop_eq_getElem_cons hj8, closeScan, if_neg, if_pos]
      · rfl
      · exact .inl (by rw [List.getElem_map]; exact hopen)
      · rw [List.getElem_map]
        exact fun h => hclose ⟨h.1, by have := of_decide_eq_false h.2; omega⟩
  | case3 j hj hclose hopen ih =>
      have hj8 : j < (lines.map utf8).length := by simpa using hj
      rw [List.getElem_map, utf16_eq_closeLine] at hclose
      rw [List.getElem_map, openRe_utf16, Option.isSome_map] at hopen
      have ih := ih (Nat.lt_succ_of_lt hij)
      rw [decide_eq_false (by omega)] at ih
      rw [List.drop_eq_getElem_cons hj8, closeScan, if_neg]
      · split
        · next hlast =>
            -- the last line is not followed by a closing marker
            have hnil : (lines.map utf8).drop (j + 1) = [] := by
              refine hlast.resolve_left fun h => hopen ?_
              rwa [List.getElem_map] at h
            rw [hnil] at ih
            cases hfind : findClose (lines.map utf16) i (j + 1) with
            | none => rfl
            | some k => rw [hfind] at ih; cases ih
        · rw [ih, Option.map_map]
          cases hfind : findClose (lines.map utf16) i (j + 1) with
          | none => rfl
          | some k =>
              have hle := (le_of_findClose hfind).1
              have hk : k - j = k - (j + 1) + 1 := by omega
              rw [Option.map_some, Option.map_some, hk, List.take_succ_cons]
              rfl
      · rw [List.getElem_map]
        exact fun h => hclose ⟨h.1, by have := of_decide_eq_false h.2; omega⟩
  | case4 j hj =>
      rw [List.drop_eq_nil_of_le (by simpa using hj)]
      rfl

theorem count_joinLines {ls : List Bytes} (hne : ls ≠ []) (h : ∀ l ∈ ls, newline ∉ l) :
    (joinLines ls).count newline + 1 = ls.length := by
  induction ls with
  | nil => exact absurd rfl hne
  | cons l ls ih =>
      have hl : l.count newline = 0 := List.count_eq_zero.2 (h l List.mem_cons_self)
      by_cases hls : ls = []
      · rw [hls, joinLines_singleton, hl]
        rfl
      · rw [joinLines_cons hls, List.length_cons,
          ← ih hls fun l' hl' => h l' (List.mem_cons_of_mem _ hl')]
        simp [hl]

/-- **The search computes the line-level parser**, from line `i` on. -/
theorem findFrom_eq {lines : List (List Char)} (hlines : ∀ l ∈ lines.map utf8, newline ∉ l)
    (i : ℕ) :
    findFrom (lines.map utf16) i =
      (itemRanges (i + 1) (parseLines ((lines.map utf8).drop i))).map GenBlockRange.widen := by
  fun_induction findFrom (lines.map utf16) i with
  | case1 i hi hopen ih =>
      have hi8 : i < (lines.map utf8).length := by simpa using hi
      rw [List.getElem_map, openRe_utf16, Option.map_eq_none_iff] at hopen
      rw [List.drop_eq_getElem_cons hi8, parseLines_of_none (by rw [List.getElem_map]; exact hopen),
        itemRanges, ih]
  | case2 i hi key hopen j hclose ih =>
      have hi8 : i < (lines.map utf8).length := by simpa using hi
      rw [List.getElem_map, openRe_utf16, Option.map_eq_some_iff] at hopen
      obtain ⟨⟨key, hash⟩, hopen, rfl⟩ := hopen
      have hscan := findClose_eq lines (i := i) (j := i + 1) (by omega)
      rw [hclose, decide_eq_true rfl, Option.map_some] at hscan
      have hj := le_of_findClose hclose
      rw [List.drop_eq_getElem_cons hi8,
        parseLines_of_close (by rw [List.getElem_map]; exact hopen) hscan, itemRanges, ih]
      -- the marker lines are as far apart as the body has lines
      have hbody : ∀ l ∈ ((lines.map utf8).drop (i + 1)).take (j - (i + 1)), newline ∉ l :=
        fun l hl => hlines l (List.mem_of_mem_drop (List.mem_of_mem_take hl))
      have hcount := count_joinLines (closeScan_true_ne_nil hscan) hbody
      have hlength : (((lines.map utf8).drop (i + 1)).take (j - (i + 1))).length = j - (i + 1) := by
        rw [List.length_take, List.length_drop, List.length_map]
        rw [List.length_map] at hj
        omega
      have hlen : i < lines.length := by simpa using hi
      have hline : newline ∉ utf8 lines[i] :=
        hlines _ (List.mem_map_of_mem (List.getElem_mem hlen))
      have hrender : (renderSegment (.block ⟨key, hash,
          joinLines (((lines.map utf8).drop (i + 1)).take (j - (i + 1)))⟩)).count newline = j - i := by
        rw [renderSegment, openLine_of_openMarkerRe _ hopen]
        rw [List.count_append, List.count_append, List.count_cons_self, List.count_cons_self,
          List.count_eq_zero.2 hline, List.count_eq_zero.2 newline_notMem_closeMarker]
        rw [hlength] at hcount
        dsimp only
        omega
      have hnext : i + 1 + (j - i) = j + 1 := by omega
      rw [hrender, hnext]
      rfl
  | case3 i hi key hopen hclose ih =>
      have hi8 : i < (lines.map utf8).length := by simpa using hi
      have hscan := findClose_eq lines (i := i) (j := i + 1) (by omega)
      rw [hclose, decide_eq_true rfl, Option.map_none] at hscan
      rw [List.drop_eq_getElem_cons hi8, parseLines_of_not_close hscan, itemRanges, ih]
  | case4 i hi =>
      rw [List.drop_eq_nil_of_le (by simpa using hi), parseLines_nil]
      rfl

/-- **The editor and the scanner see the same blocks**: of any text, the client finds in the UTF-16
code units the blocks that the scanner finds in the UTF-8 bytes, on the same lines. -/
theorem editor_blocks (t : List Char) :
    findGenBlocks (utf16 t) =
      (blockRanges 1 (parseBlocks (utf8 t))).map GenBlockRange.widen := by
  have h8 : linesOf (utf8 t) = (t.splitOn (Char.ofNat newline.toNat)).map utf8 :=
    splitOn_utf8 (by decide) t
  have hlines : ∀ l ∈ (t.splitOn (Char.ofNat newline.toNat)).map utf8, newline ∉ l := by
    rw [← h8]
    exact fun l => newline_notMem_of_mem_linesOf
  have htext : ∀ l, Item.line l ∈ parseLines (linesOf (utf8 t)) → newline ∉ l := by
    intro l hl
    refine newline_notMem_of_mem_linesOf (s := utf8 t) ?_
    rw [← itemsOf_lines]
    exact List.mem_flatMap.2 ⟨_, hl, List.mem_singleton.2 rfl⟩
  rw [findGenBlocks, splitOn_utf16 (by decide), findFrom_eq hlines, parseBlocks_eq,
    blockRanges_toSegments htext, h8]
  rfl

end WiseLabz.Doc
