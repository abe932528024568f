/-
**The layout of a sequence of segments.**

Rendering concatenates segments, so a block is found again only if its marker lines stay lines of
their own.  `Doc.toItems` computes, from the right, the items a sequence of segments is laid out
as, and fails where a marker line would be glued to text.  It is the one description of segments
that the later modules change and compare: rendering, parsing and merging are all read off it.

Main definitions:

* `Doc.push`, `Doc.toItems` — the items of a segment placed before others, and of a sequence;
* `Doc.coalesce` — adjacent texts joined, empty ones dropped.

Main results:

* `Doc.toItems_parseBlocks` — the segments of a doc are laid out as its items;
* `Doc.itemsOf_renderSegments`, `Doc.parseBlocks_renderSegments` — **segments laid out as quiet
  items are read back**, up to the joining of adjacent texts;
* `Doc.renderSegments_parseBlocks` — rendering the segments of a doc gives the doc back.
-/

import WiseLabz.Doc.Lines

set_option relaxedAutoImplicit false
set_option autoImplicit false

namespace WiseLabz.Doc

open Lib

/-! ### Laying out segments -/

/-- Places one byte of text before items: a newline opens a line, another byte joins the first
line, which must be text. -/
def pushByte (b : UInt8) : List Item → Option (List Item)
  | [] => none
  | .line l :: items => if b = newline then some (.line [] :: .line l :: items)
      else some (.line (b :: l) :: items)
  | .gen g :: items => if b = newline then some (.line [] :: .gen g :: items) else none

/-- Places a text before items. -/
def pushText : Bytes → List Item → Option (List Item)
  | [], items => some items
  | b :: t, items => (pushText t items).bind (pushByte b)

/-- Places a block before items, whose first line must be the rest of its closing marker line. -/
def pushBlock (b : Block) : List Item → Option (List Item)
  | .line [] :: items => some (.gen b :: items)
  | _ => none

/-- Places a segment before items. -/
def push : Segment → List Item → Option (List Item)
  | .text t => pushText t
  | .block b => pushBlock b

/-- The items that segments are laid out as, before the given ones. -/
def pushAll : List Segment → List Item → Option (List Item)
  | [], items => some items
  | s :: segs, items => (pushAll segs items).bind (push s)

/-- **The items that segments are laid out as**, if every marker line is a line of its own. -/
def toItems (segs : List Segment) : Option (List Item) := pushAll segs [.line []]

@[simp] theorem toItems_nil : toItems [] = some [.line []] := rfl

theorem toItems_cons (s : Segment) (segs : List Segment) :
    toItems (s :: segs) = (toItems segs).bind (push s) := rfl

theorem pushText_append (t u : Bytes) (items : List Item) :
    pushText (t ++ u) items = (pushText u items).bind (pushText t) := by
  induction t with
  | nil => cases h : pushText u items <;> simp [pushText, h]
  | cons b t ih => cases h : pushText u items <;> simp [pushText, ih, h]

theorem pushAll_append (segs segs' : List Segment) (items : List Item) :
    pushAll (segs ++ segs') items = (pushAll segs' items).bind (pushAll segs) := by
  induction segs with
  | nil => cases h : pushAll segs' items <;> simp [pushAll, h]
  | cons s segs ih => cases h : pushAll segs' items <;> simp [pushAll, ih, h]

theorem toItems_append (segs segs' : List Segment) :
    toItems (segs ++ segs') = (toItems segs').bind (pushAll segs) :=
  pushAll_append segs segs' [.line []]

theorem pushByte_newline {items : List Item} (h : items ≠ []) :
    pushByte newline items = some (.line [] :: items) := by
  rcases items with _ | ⟨l | g, items⟩
  · simp at h
  · simp [pushByte]
  · simp [pushByte]

/-- A byte that ends no line joins the first line, which is text. -/
theorem pushByte_of_ne {b : UInt8} (hb : b ≠ newline) {items items' : List Item}
    (h : pushByte b items = some items') :
    ∃ l J, items = .line l :: J ∧ items' = .line (b :: l) :: J := by
  rcases items with _ | ⟨l | g, items⟩
  · simp [pushByte] at h
  · exact ⟨l, items, rfl, by simpa [pushByte, hb] using h.symm⟩
  · simp [pushByte, hb] at h

theorem pushByte_ne_nil {b : UInt8} {items items' : List Item} (h : pushByte b items = some items') :
    items ≠ [] ∧ items' ≠ [] := by
  rcases items with _ | ⟨l | g, items⟩
  · simp [pushByte] at h
  · refine ⟨by simp, ?_⟩
    simp only [pushByte] at h
    split at h
    all_goals simp only [Option.some.injEq] at h; simp [← h]
  · refine ⟨by simp, ?_⟩
    simp only [pushByte] at h
    split at h
    · simp only [Option.some.injEq] at h; simp [← h]
    · simp at h

theorem pushBlock_eq_some {b : Block} {items items' : List Item}
    (h : pushBlock b items = some items') : ∃ J, items = .line [] :: J ∧ items' = .gen b :: J := by
  rcases items with _ | ⟨⟨_ | ⟨c, l⟩⟩ | g, items⟩
  · simp [pushBlock] at h
  · exact ⟨items, rfl, by simpa [pushBlock] using h.symm⟩
  · simp [pushBlock] at h
  · simp [pushBlock] at h

theorem push_ne_nil {s : Segment} {items items' : List Item} (h : push s items = some items')
    (hne : items ≠ []) : items' ≠ [] := by
  cases s with
  | text t =>
      cases t with
      | nil => simp only [push, pushText, Option.some.injEq] at h; exact h ▸ hne
      | cons b t =>
          obtain ⟨J, -, hb⟩ := Option.bind_eq_some_iff.1 h
          exact (pushByte_ne_nil hb).2
  | block b =>
      obtain ⟨J, -, rfl⟩ := pushBlock_eq_some h
      simp

theorem pushAll_ne_nil {segs : List Segment} {items items' : List Item}
    (h : pushAll segs items = some items') (hne : items ≠ []) : items' ≠ [] := by
  induction segs generalizing items' with
  | nil => simp only [pushAll, Option.some.injEq] at h; exact h ▸ hne
  | cons s segs ih =>
      obtain ⟨J, hJ, hs⟩ := Option.bind_eq_some_iff.1 h
      exact push_ne_nil hs (ih hJ)

theorem toItems_ne_nil {segs : List Segment} {items : List Item} (h : toItems segs = some items) :
    items ≠ [] := pushAll_ne_nil h (by simp)

/-- Placing text on a line that it joins. -/
theorem pushText_line {t : Bytes} (ht : newline ∉ t) (l : Bytes) (items : List Item) :
    pushText t (.line l :: items) = some (.line (t ++ l) :: items) := by
  induction t with
  | nil => rfl
  | cons b t ih =>
      simp only [List.mem_cons, not_or] at ht
      simp [pushText, ih ht.2, pushByte, Ne.symm ht.1]

/-- Placing text on an empty line lays it out as its lines. -/
theorem pushText_nil_line (t : Bytes) (items : List Item) :
    pushText t (.line [] :: items) = some ((linesOf t).map .line ++ items) := by
  induction hn : t.length using Nat.strong_induction_on generalizing t with
  | _ n ih =>
      rcases linesOf_cases t with ⟨ht, he⟩ | ⟨l, r, hl, rfl, he⟩
      · simp [he, pushText_line ht]
      · rw [pushText_append, pushText, ih r.length (by simp at hn; omega) r rfl, he]
        rw [Option.bind_some, pushByte_newline (by simp), Option.bind_some, pushText_line hl]
        simp

/-! ### Segments, items and text -/

/-- Adjacent texts joined and empty ones dropped, after the `pending` text. -/
def coalesceFrom (pending : Bytes) : List Segment → List Segment
  | [] => flush pending
  | .text t :: segs => coalesceFrom (pending ++ t) segs
  | .block b :: segs => flush pending ++ .block b :: coalesceFrom [] segs

/-- Adjacent texts joined and empty ones dropped. -/
def coalesce (segs : List Segment) : List Segment := coalesceFrom [] segs

theorem toSegments_pushByte {b : UInt8} {items items' : List Item}
    (h : pushByte b items = some items') (p : Bytes) :
    toSegments p items' = toSegments (p ++ [b]) items := by
  by_cases hb : b = newline
  · subst hb
    have hne := (pushByte_ne_nil h).1
    rw [pushByte_newline hne, Option.some.injEq] at h
    rw [← h, toSegments_line hne]
    simp
  · obtain ⟨l, J, rfl, rfl⟩ := pushByte_of_ne hb h
    cases J with
    | nil => simp [toSegments]
    | cons item J => simp [toSegments]

theorem toSegments_pushText {t : Bytes} {items items' : List Item}
    (h : pushText t items = some items') (p : Bytes) :
    toSegments p items' = toSegments (p ++ t) items := by
  induction t generalizing items' p with
  | nil => simp only [pushText, Option.some.injEq] at h; simp [h]
  | cons b t ih =>
      obtain ⟨J, hJ, hb⟩ := Option.bind_eq_some_iff.1 h
      rw [toSegments_pushByte hb, ih hJ]
      simp

/-- **The segments of the items of a layout** are the given segments, coalesced. -/
theorem toSegments_toItems {segs : List Segment} {items : List Item}
    (h : toItems segs = some items) (p : Bytes) : toSegments p items = coalesceFrom p segs := by
  induction segs generalizing items p with
  | nil =>
      simp only [toItems_nil, Option.some.injEq] at h
      simp [← h, toSegments, coalesceFrom]
  | cons s segs ih =>
      obtain ⟨J, hJ, hs⟩ := Option.bind_eq_some_iff.1 h
      cases s with
      | text t => rw [toSegments_pushText hs, ih hJ, coalesceFrom]
      | block b =>
          obtain ⟨J, rfl, rfl⟩ := pushBlock_eq_some hs
          have := ih hJ []
          cases J with
          | nil => rw [coalesceFrom, ← this]; simp [toSegments]
          | cons item J => rw [coalesceFrom, ← this]; simp [toSegments]

/-- The items a sequence of segments is laid out as are those it was made from. -/
theorem toItems_toSegments {items : List Item} (hne : items ≠ [])
    (hnl : ∀ l, .line l ∈ items → newline ∉ l) (p : Bytes) :
    toItems (toSegments p items) = pushText p items := by
  have hflush : ∀ (q : Bytes) (segs : List Segment),
      toItems (flush q ++ segs) = (toItems segs).bind (pushText q) := by
    intro q segs
    by_cases hq : q = []
    · cases h : toItems segs <;> simp [hq, h, pushText]
    · simp [flush, hq, toItems_cons, push]
  induction items generalizing p with
  | nil => simp at hne
  | cons item items ih =>
      have hnl' : ∀ l, .line l ∈ items → newline ∉ l := fun l hl =>
        hnl l (List.mem_cons_of_mem item hl)
      cases item with
      | line l =>
          have hl := hnl l List.mem_cons_self
          by_cases hi : items = []
          · subst hi
            have := hflush (p ++ l) []
            simp only [List.append_nil] at this
            rw [toSegments, this, toItems_nil, Option.bind_some, pushText_append,
              pushText_line hl, List.append_nil, Option.bind_some]
          · rw [toSegments_line hi, ih hi hnl', pushText_append, pushText_append]
            rw [pushText, pushText, Option.bind_some, pushByte_newline hi, Option.bind_some,
              pushText_line hl, List.append_nil, Option.bind_some]
      | gen b =>
          by_cases hi : items = []
          · subst hi
            rw [toSegments, hflush]
            simp [toItems_cons, push, pushBlock]
          · rw [toSegments_gen hi, hflush, toItems_cons, ih hi hnl', pushText, pushText,
              Option.bind_some, pushByte_newline hi, Option.bind_some]
            simp [push, pushBlock]

theorem newline_notMem_of_quiet {items : List Item} (h : Quiet items) :
    ∀ l, .line l ∈ items → newline ∉ l := by
  induction items with
  | nil => simp
  | cons item items ih =>
      intro l hl
      cases item with
      | line l' =>
          rcases List.mem_cons.1 hl with he | hl
          · obtain rfl := Item.line.inj he
            exact h.1
          · exact ih h.2.2 l hl
      | gen b =>
          rcases List.mem_cons.1 hl with he | hl
          · simp at he
          · exact ih h.2 l hl

/-- **The segments of a doc are laid out as its items.** -/
theorem toItems_parseBlocks (content : Bytes) :
    toItems (parseBlocks content) = some (itemsOf content) := by
  rw [parseBlocks_eq_toSegments, toItems_toSegments (itemsOf_ne_nil content)
    (newline_notMem_of_quiet (quiet_itemsOf content)), pushText]

/-! ### Rendering a layout -/

theorem flatMap_lines_ne_nil {items : List Item} (h : items ≠ []) :
    items.flatMap Item.lines ≠ [] := by
  rcases items with _ | ⟨l | b, items⟩
  · simp at h
  · simp [Item.lines]
  · simp [Item.lines]

theorem joinLines_append {ls ls' : List Bytes} (h : ls ≠ []) (h' : ls' ≠ []) :
    joinLines (ls ++ ls') = joinLines ls ++ newline :: joinLines ls' := by
  induction ls with
  | nil => simp at h
  | cons l ls ih =>
      by_cases hl : ls = []
      · simp [hl, joinLines_cons h']
      · rw [List.cons_append, joinLines_cons (by simp [hl]), ih hl, joinLines_cons hl]
        simp

theorem joinLines_pushByte {b : UInt8} {items items' : List Item}
    (h : pushByte b items = some items') :
    joinLines (items'.flatMap Item.lines) = b :: joinLines (items.flatMap Item.lines) := by
  by_cases hb : b = newline
  · subst hb
    have hne := (pushByte_ne_nil h).1
    rw [pushByte_newline hne, Option.some.injEq] at h
    rw [← h, List.flatMap_cons, Item.lines, joinLines_append (by simp) (flatMap_lines_ne_nil hne)]
    simp
  · obtain ⟨l, J, rfl, rfl⟩ := pushByte_of_ne hb h
    by_cases hJ : J = []
    · simp [hJ, Item.lines]
    · have := flatMap_lines_ne_nil hJ
      simp only [List.flatMap_cons, Item.lines]
      rw [joinLines_append (by simp) this, joinLines_append (by simp) this]
      simp

theorem joinLines_pushText {t : Bytes} {items items' : List Item}
    (h : pushText t items = some items') :
    joinLines (items'.flatMap Item.lines) = t ++ joinLines (items.flatMap Item.lines) := by
  induction t generalizing items' with
  | nil => simp only [pushText, Option.some.injEq] at h; simp [h]
  | cons b t ih =>
      obtain ⟨J, hJ, hb⟩ := Option.bind_eq_some_iff.1 h
      rw [joinLines_pushByte hb, ih hJ, List.cons_append]

theorem joinLines_gen_lines (b : Block) :
    joinLines (Item.lines (.gen b)) = renderSegment (.block b) := by
  rw [Item.lines, joinLines_cons (by simp), joinLines_append (by simp) (by simp)]
  simp [renderSegment]

/-- **Rendering segments joins the lines of their layout.** -/
theorem joinLines_toItems {segs : List Segment} {items : List Item}
    (h : toItems segs = some items) :
    joinLines (items.flatMap Item.lines) = renderSegments segs := by
  induction segs generalizing items with
  | nil =>
      simp only [toItems_nil, Option.some.injEq] at h
      simp [← h, Item.lines, renderSegments]
  | cons s segs ih =>
      obtain ⟨J, hJ, hs⟩ := Option.bind_eq_some_iff.1 h
      have ih := ih hJ
      cases s with
      | text t => rw [joinLines_pushText hs, ih]; simp [renderSegments, renderSegment]
      | block b =>
          obtain ⟨J, rfl, rfl⟩ := pushBlock_eq_some hs
          have hrender : renderSegments (.block b :: segs) =
              renderSegment (.block b) ++ renderSegments segs := rfl
          rw [hrender, ← ih, List.flatMap_cons, List.flatMap_cons]
          by_cases hJ : J = []
          · subst hJ
            simpa [Item.lines] using joinLines_gen_lines b
          · have := flatMap_lines_ne_nil hJ
            rw [joinLines_append (by simp [Item.lines]) this, joinLines_gen_lines,
              show Item.lines (.line []) = [[]] from rfl, joinLines_append (by simp) this]
            simp

theorem newline_notMem_quote (s : Bytes) : newline ∉ quote s := by
  have hbyte : ∀ b, newline ∉ quoteByte b := by
    intro b hb
    have hhex : newline ∉ hexEncode [b] := fun hm => by
      simpa [isHexChar, newline] using isHexChar_of_mem_hexEncode hm
    unfold quoteByte at hb
    split at hb
    · rename_i h
      rcases h with rfl | rfl <;> simp [newline] at hb
    split at hb
    · rename_i h
      obtain rfl := List.mem_singleton.1 hb
      exact absurd h (by decide)
    split at hb
    all_goals first
      | exact absurd hb (by decide)
      | exact (List.mem_append.1 hb).elim (by decide) hhex
  simp only [quote, List.mem_append, List.mem_cons, List.mem_flatMap, List.not_mem_nil, or_false,
    not_or, not_exists, not_and]
  exact ⟨⟨by decide, fun b _ => hbyte b⟩, by decide⟩

theorem newline_notMem_openLine (b : Block) : newline ∉ openLine b := by
  have h₁ : newline ∉ bytes "<!-- wl:gen key=" := by decide
  have h₂ : newline ∉ bytes " h=" := by decide
  have h₃ : newline ∉ bytes " -->" := by decide
  simp [openLine, h₁, h₂, h₃, newline_notMem_quote]

theorem newline_notMem_lines {items : List Item} (h : ∀ l, .line l ∈ items → newline ∉ l) :
    ∀ l ∈ items.flatMap Item.lines, newline ∉ l := by
  intro l hl
  obtain ⟨item, hi, hm⟩ := List.mem_flatMap.1 hl
  cases item with
  | line l' => exact List.mem_singleton.1 hm ▸ h l' hi
  | gen b =>
      simp only [Item.lines, List.mem_cons, List.mem_append, List.not_mem_nil, or_false] at hm
      rcases hm with rfl | hm | rfl
      · exact newline_notMem_openLine b
      · exact newline_notMem_of_mem_linesOf hm
      · exact newline_notMem_closeMarker

/-- **Segments laid out as quiet items are parsed into these items.** -/
theorem itemsOf_renderSegments {segs : List Segment} {items : List Item}
    (h : toItems segs = some items) (hq : Quiet items) :
    itemsOf (renderSegments segs) = items := by
  rw [itemsOf, ← joinLines_toItems h, linesOf_joinLines (flatMap_lines_ne_nil (toItems_ne_nil h))
    (newline_notMem_lines (newline_notMem_of_quiet hq)), parseLines_eq_self hq]

/-- **Segments laid out as quiet items are read back**, with adjacent texts joined. -/
theorem parseBlocks_renderSegments {segs : List Segment} {items : List Item}
    (h : toItems segs = some items) (hq : Quiet items) :
    parseBlocks (renderSegments segs) = coalesce segs := by
  rw [parseBlocks_eq_toSegments, itemsOf_renderSegments h hq, toSegments_toItems h, coalesce]

/-- Coalescing does not change the rendered text. -/
theorem renderSegments_coalesceFrom (p : Bytes) (segs : List Segment) :
    renderSegments (coalesceFrom p segs) = p ++ renderSegments segs := by
  have hflush : ∀ (q : Bytes) (segs : List Segment),
      renderSegments (flush q ++ segs) = q ++ renderSegments segs := by
    intro q segs
    by_cases hq : q = []
    · simp [hq]
    · simp [flush, hq, renderSegments, renderSegment]
  induction segs generalizing p with
  | nil => simpa [coalesceFrom, renderSegments] using hflush p []
  | cons s segs ih =>
      cases s with
      | text t =>
          rw [coalesceFrom, ih]
          simp [renderSegments, renderSegment]
      | block b =>
          rw [coalesceFrom, hflush]
          simpa [renderSegments] using ih []

@[simp] theorem renderSegments_coalesce (segs : List Segment) :
    renderSegments (coalesce segs) = renderSegments segs := by
  simpa [coalesce] using renderSegments_coalesceFrom [] segs

/-- **Losslessness**: rendering the segments of a doc gives the doc back. -/
theorem renderSegments_parseBlocks (content : Bytes) :
    renderSegments (parseBlocks content) = content := by
  rw [← joinLines_toItems (toItems_parseBlocks content), itemsOf_lines, joinLines_linesOf]

end WiseLabz.Doc
