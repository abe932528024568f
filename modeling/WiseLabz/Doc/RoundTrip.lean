/-
**The round trip between docs and segments.**

Every doc is its segments printed again, whatever markers it holds.  The other direction needs the
segments to be in normal form: what is printed for them must put each marker on a line of its own,
and no line of text may look like an opening marker.

Main definitions:

* `Doc.Plain` — items in which no text line is an opening marker;
* `Doc.NormalForm`, `Doc.BlocksApart` — the segment sequences that are read back.

Main results:

* `Doc.toItems_normalForm` — segments in normal form are laid out as plain items;
* `Doc.parseBlocks_lossless` — **losslessness in both directions**, with termination of the scanner
  and the shape of the bodies it returns;
* `Doc.adjacent_blocks_not_read_back` — two blocks with no text between them are not read back.
-/

import WiseLabz.Doc.Layout
import Mathlib.Data.List.Chain

set_option relaxedAutoImplicit false
set_option autoImplicit false

namespace WiseLabz.Doc

open Lib

/-! ### Items without an opening marker in their text -/

/-- No text line is an opening marker, and the blocks are read back as they are printed. -/
def Plain (items : List Item) : Prop :=
  (∀ l, .line l ∈ items → newline ∉ l ∧ isOpen l = false) ∧ ∀ b, .gen b ∈ items → GoodBlock b

@[simp] theorem plain_nil : Plain [] := by simp [Plain]

theorem plain_append {items items' : List Item} :
    Plain (items ++ items') ↔ Plain items ∧ Plain items' := by
  simp only [Plain, List.mem_append]
  constructor
  · rintro ⟨hl, hb⟩
    exact ⟨⟨fun l h => hl l (Or.inl h), fun b h => hb b (Or.inl h)⟩,
      fun l h => hl l (Or.inr h), fun b h => hb b (Or.inr h)⟩
  · rintro ⟨⟨hl, hb⟩, hl', hb'⟩
    exact ⟨fun l h => h.elim (hl l) (hl' l), fun b h => h.elim (hb b) (hb' b)⟩

theorem plain_line {l : Bytes} {items : List Item} :
    Plain (.line l :: items) ↔ (newline ∉ l ∧ isOpen l = false) ∧ Plain items := by
  simp [Plain, and_assoc]

theorem plain_gen {b : Block} {items : List Item} :
    Plain (.gen b :: items) ↔ GoodBlock b ∧ Plain items := by
  simp only [Plain, List.mem_cons, Item.gen.injEq, reduceCtorEq, false_or, forall_eq_or_imp]
  tauto

theorem plain_map_line {ls : List Bytes} :
    Plain (ls.map .line) ↔ ∀ l ∈ ls, newline ∉ l ∧ isOpen l = false := by
  simp [Plain]

/-- Plain items are quiet: there is nothing that could open a block. -/
theorem Plain.quiet {items : List Item} (h : Plain items) : Quiet items := by
  induction items with
  | nil => trivial
  | cons item items ih =>
      cases item with
      | line l =>
          obtain ⟨⟨hnl, hl⟩, hp⟩ := plain_line.1 h
          exact ⟨hnl, by simp [hl], ih hp⟩
      | gen b =>
          obtain ⟨hb, hp⟩ := plain_gen.1 h
          exact ⟨hb, ih hp⟩

/-! ### Normal form -/

/-- A segment that may occur in a sequence in normal form. -/
def SegmentOk : Segment → Prop
  | .text t => t ≠ [] ∧ ∀ l ∈ linesOf t, isOpen l = false
  | .block b => KeyOk b.key ∧ HashOk b.hash ∧ ∀ l ∈ linesOf b.body, isOpen l = false ∧ l ≠ closeMarker

/-- Which segment may follow which: texts are never adjacent, and a text is separated from a block
by the end of a line. -/
def MayFollow : Segment → Segment → Prop
  | .text _, .text _ => False
  | .text t, .block _ => t.getLast? = some newline
  | .block _, .text t => t.head? = some newline
  | .block _, .block _ => True

/-- The normal form of a sequence of segments: texts are not empty, not adjacent, separated from
blocks by line ends and without opening markers; blocks fit the marker grammar and have no marker
line in their bodies. -/
structure NormalForm (segs : List Segment) : Prop where
  segment : ∀ s ∈ segs, SegmentOk s
  follow : segs.IsChain MayFollow

/-- No two blocks are adjacent. -/
def BlocksApart (segs : List Segment) : Prop :=
  segs.IsChain fun s s' => s.block?.isSome → s'.block?.isSome → False

instance (s : Segment) : Decidable (SegmentOk s) := by
  cases s <;> exact inferInstanceAs (Decidable (_ ∧ _))

instance : DecidableRel MayFollow := fun s s' => by
  cases s <;> cases s' <;> simp only [MayFollow] <;> infer_instance

theorem goodBlock_of_segmentOk {b : Block} (h : SegmentOk (.block b)) : GoodBlock b where
  key := h.1
  hash := h.2.1
  no_open := fun l hl => (h.2.2 l hl).1
  no_close := fun hm => (h.2.2 _ (List.mem_of_mem_tail hm)).2 rfl

/-- How the layout of a sequence in normal form starts. -/
def StartsLike : List Segment → List Item → Prop
  | [], items => items = [.line []]
  | .text t :: _, items => t.head? = some newline → ∃ J, items = .line [] :: J
  | .block b :: _, items => ∃ J, items = .gen b :: J

/-- The lines of a text without its last newline are among its lines. -/
theorem mem_linesOf_append_newline {t l : Bytes} (h : l ∈ linesOf t) :
    l ∈ linesOf (t ++ [newline]) := by
  induction hn : t.length using Nat.strong_induction_on generalizing t with
  | _ n ih =>
      rcases linesOf_cases t with ⟨ht, he⟩ | ⟨l', r, hl', rfl, he⟩
      · rw [he] at h
        rw [linesOf_append_newline ht]
        exact List.mem_cons.2 (Or.inl (List.mem_singleton.1 h))
      · rw [he] at h
        rw [List.append_assoc, List.cons_append, linesOf_append_newline hl']
        rcases List.mem_cons.1 h with rfl | h
        · exact List.mem_cons_self
        · exact List.mem_cons_of_mem _ (ih r.length (by simp at hn; omega) h rfl)

theorem plain_lines_text {t : Bytes} (h : ∀ l ∈ linesOf t, isOpen l = false) :
    Plain ((linesOf t).map .line) :=
  plain_map_line.2 fun l hl => ⟨newline_notMem_of_mem_linesOf hl, h l hl⟩

/-- A text that starts with a newline is laid out with an empty first line. -/
theorem pushText_newline_start {t : Bytes} {items items' : List Item}
    (h : pushText t items = some items') (hh : t.head? = some newline) :
    ∃ J, items' = .line [] :: J := by
  cases t with
  | nil => simp at hh
  | cons b t =>
      obtain rfl : b = newline := by simpa using hh
      obtain ⟨J, hJ, hb⟩ := Option.bind_eq_some_iff.1 h
      rw [pushByte_newline (pushByte_ne_nil hb).1, Option.some.injEq] at hb
      exact ⟨J, hb.symm⟩

/-- A text before the end of the doc or before a block is laid out as plain lines. -/
theorem toItems_text {t : Bytes} {segs : List Segment} {items : List Item}
    (hok : SegmentOk (.text t)) (hf : (Segment.text t :: segs).IsChain MayFollow)
    (h : toItems segs = some items) (hp : Plain items) (hs : StartsLike segs items) :
    ∃ items', toItems (.text t :: segs) = some items' ∧ Plain items' := by
  rw [toItems_cons, h, Option.bind_some]
  cases segs with
  | nil =>
      obtain rfl : items = [.line []] := hs
      refine ⟨(linesOf t).map .line, ?_, plain_lines_text hok.2⟩
      simpa [push] using pushText_nil_line t []
  | cons s segs =>
      cases s with
      | text t' => exact (List.isChain_cons_cons.1 hf).1.elim
      | block b =>
          have hlast : t.getLast? = some newline := (List.isChain_cons_cons.1 hf).1
          obtain ⟨t, rfl⟩ := List.getLast?_eq_some_iff.1 hlast
          have hne : items ≠ [] := toItems_ne_nil h
          refine ⟨(linesOf t).map .line ++ items, ?_, ?_⟩
          · rw [push, pushText_append, pushText, pushText, Option.bind_some, pushByte_newline hne,
              Option.bind_some, pushText_nil_line]
          · refine plain_append.2 ⟨plain_lines_text fun l hl => ?_, hp⟩
            exact hok.2 l (mem_linesOf_append_newline hl)

/-- **Segments in normal form are laid out as plain items**, when no two blocks are adjacent. -/
theorem toItems_normalForm {segs : List Segment} (hn : NormalForm segs) (ha : BlocksApart segs) :
    ∃ items, toItems segs = some items ∧ Plain items ∧ StartsLike segs items := by
  induction segs with
  | nil => exact ⟨[.line []], rfl, plain_line.2 ⟨by simp, plain_nil⟩, rfl⟩
  | cons s segs ih =>
      have hok := hn.segment s List.mem_cons_self
      obtain ⟨items, hi, hp, hs⟩ := ih
        ⟨fun s' hs' => hn.segment s' (List.mem_cons_of_mem s hs'), hn.follow.tail⟩ ha.tail
      cases s with
      | text t =>
          obtain ⟨items', hi', hp'⟩ := toItems_text hok hn.follow hi hp hs
          refine ⟨items', hi', hp', fun hh => ?_⟩
          rw [toItems_cons, hi, Option.bind_some] at hi'
          exact pushText_newline_start hi' hh
      | block b =>
          -- the closing marker line ends where the doc ends or the next text starts
          obtain ⟨J, rfl⟩ : ∃ J, items = .line [] :: J := by
            cases segs with
            | nil => exact ⟨[], hs⟩
            | cons s' segs =>
                cases s' with
                | text t => exact hs (List.isChain_cons_cons.1 hn.follow).1
                | block b' => exact ((List.isChain_cons_cons.1 ha).1 rfl rfl).elim
          refine ⟨.gen b :: J, ?_, ?_, J, rfl⟩
          · rw [toItems_cons, hi, Option.bind_some, push, pushBlock]
          · exact plain_gen.2 ⟨goodBlock_of_segmentOk hok, (plain_line.1 hp).2⟩

/-- Segments in normal form have no adjacent texts to join. -/
theorem coalesce_normalForm {segs : List Segment} (hn : NormalForm segs) : coalesce segs = segs := by
  induction segs with
  | nil => rfl
  | cons s segs ih =>
      have ih := ih ⟨fun s' hs' => hn.segment s' (List.mem_cons_of_mem s hs'), hn.follow.tail⟩
      rw [coalesce] at ih ⊢
      cases s with
      | block b => rw [coalesceFrom, ih]; rfl
      | text t =>
          have ht : t ≠ [] := (hn.segment _ List.mem_cons_self).1
          cases segs with
          | nil => simp [coalesceFrom, flush, ht]
          | cons s segs =>
              cases s with
              | text t' => exact (List.isChain_cons_cons.1 hn.follow).1.elim
              | block b =>
                  rw [coalesceFrom, flush_nil, List.nil_append, List.cons.injEq] at ih
                  rw [coalesceFrom, coalesceFrom, ih.2]
                  simp [flush, ht]

/-! ### The round trip -/

/-- The scanner stops within one round for each byte of the content. -/
theorem parseLoop_terminates (content : Bytes) :
    parseLoop content (content.length + 1) 0 0 [] = some (parseBlocks content) := by
  have := parseLoop_eq (content.length + 1) [] [] content [] (by omega)
  simp only [List.nil_append, List.length_nil, Nat.zero_add] at this
  rw [this, parseBlocks_eq]

/-- Every block of the items' segments is one of the items. -/
theorem mem_toSegments_block {b : Block} {items : List Item} {p : Bytes}
    (h : .block b ∈ toSegments p items) : .gen b ∈ items := by
  have hflush : ∀ q : Bytes, Segment.block b ∉ flush q := by
    intro q
    unfold flush
    split <;> simp
  induction items generalizing p with
  | nil => exact (hflush _ h).elim
  | cons item items ih =>
      by_cases hi : items = []
      · subst hi
        cases item with
        | line l => exact (hflush _ h).elim
        | gen c => simpa [toSegments, hflush] using h
      · cases item with
        | line l =>
            rw [toSegments_line hi] at h
            exact List.mem_cons_of_mem _ (ih h)
        | gen c =>
            rw [toSegments_gen hi, List.mem_append, List.mem_cons] at h
            rcases h with h | h | h
            · exact (hflush _ h).elim
            · simp [Segment.block.inj h]
            · exact List.mem_cons_of_mem _ (ih h)

theorem goodBlock_of_quiet {b : Block} {items : List Item} (hq : Quiet items)
    (h : .gen b ∈ items) : GoodBlock b := by
  induction items with
  | nil => simp at h
  | cons item items ih =>
      cases item with
      | line l => exact ih hq.2.2 (by simpa using h)
      | gen c =>
          rcases List.mem_cons.1 h with he | h
          · obtain rfl := Item.gen.inj he
            exact hq.1
          · exact ih hq.2 h

theorem goodBlock_of_mem_parseBlocks {b : Block} {content : Bytes}
    (h : .block b ∈ parseBlocks content) : GoodBlock b := by
  rw [parseBlocks_eq_toSegments] at h
  exact goodBlock_of_quiet (quiet_itemsOf content) (mem_toSegments_block h)

/-! ### The lines of the text segments -/

/-- The lines of two byte strings with a newline between them. -/
theorem linesOf_append_newline_cons (s t : Bytes) :
    linesOf (s ++ newline :: t) = linesOf s ++ linesOf t := by
  induction hn : s.length using Nat.strong_induction_on generalizing s with
  | _ n ih =>
      rcases linesOf_cases s with ⟨hs, he⟩ | ⟨l, r, hl, rfl, he⟩
      · rw [he, linesOf_append_newline hs, List.singleton_append]
      · rw [he, List.append_assoc, List.cons_append, linesOf_append_newline hl,
          ih r.length (by simp at hn; omega) r rfl, List.cons_append]

/-- What stands between two line ends is a line. -/
theorem mem_linesOf_between {p l q : Bytes} (hl : newline ∉ l)
    (hp : p = [] ∨ p.getLast? = some newline) (hq : q = [] ∨ q.head? = some newline) :
    l ∈ linesOf (p ++ (l ++ q)) := by
  have hlq : l ∈ linesOf (l ++ q) := by
    rcases hq with rfl | hq
    · simp [linesOf_of_notMem hl]
    · cases q with
      | nil => simp at hq
      | cons b q =>
          obtain rfl : b = newline := by simpa using hq
          rw [linesOf_append_newline hl]
          exact List.mem_cons_self
  rcases hp with rfl | hp
  · exact hlq
  · obtain ⟨p, rfl⟩ := List.getLast?_eq_some_iff.1 hp
    rw [List.append_assoc, List.singleton_append, linesOf_append_newline_cons]
    exact List.mem_append_right _ hlq

/-- A pending text starts the first segment. -/
theorem toSegments_pending {p : Bytes} (hp : p ≠ []) (items : List Item) :
    ∃ u segs, toSegments p items = .text (p ++ u) :: segs := by
  induction items generalizing p with
  | nil => exact ⟨[], [], by simp [toSegments, flush, hp]⟩
  | cons item items ih =>
      by_cases hi : items = []
      · subst hi
        cases item with
        | line l => exact ⟨l, [], by simp [toSegments, flush, hp]⟩
        | gen b => exact ⟨[], [.block b], by simp [toSegments, flush, hp]⟩
      · cases item with
        | line l =>
            obtain ⟨u, segs, hu⟩ := ih (p := p ++ (l ++ [newline])) (by simp)
            exact ⟨l ++ newline :: u, segs, by rw [toSegments_line hi, hu]; simp⟩
        | gen b => exact ⟨[], _, by rw [toSegments_gen hi, flush, if_neg hp]; simp; rfl⟩

/-- Every text line of the items is a line of one of their text segments. -/
theorem exists_text_of_line {items : List Item} (hnl : ∀ l, .line l ∈ items → newline ∉ l)
    {p l : Bytes} (hp : p = [] ∨ p.getLast? = some newline) (h : .line l ∈ items) :
    l = [] ∨ ∃ t, .text t ∈ toSegments p items ∧ l ∈ linesOf t := by
  induction items generalizing p with
  | nil => simp at h
  | cons item items ih =>
      have hnl' : ∀ l, .line l ∈ items → newline ∉ l := fun l hl =>
        hnl l (List.mem_cons_of_mem item hl)
      by_cases hi : items = []
      · subst hi
        obtain rfl := (List.mem_singleton.1 h)
        by_cases ht : p ++ l = []
        · exact Or.inl (List.append_eq_nil_iff.1 ht).2
        · refine Or.inr ⟨p ++ l, by simp [toSegments, flush, ht], ?_⟩
          simpa using mem_linesOf_between (hnl l List.mem_cons_self) hp (Or.inl rfl)
      · cases item with
        | line l' =>
            rw [toSegments_line hi]
            rcases List.mem_cons.1 h with he | h
            · obtain rfl := Item.line.inj he
              obtain ⟨u, segs, hu⟩ := toSegments_pending (p := p ++ (l ++ [newline])) (by simp) items
              refine Or.inr ⟨_, by rw [hu]; exact List.mem_cons_self, ?_⟩
              simpa using mem_linesOf_between (q := newline :: u) (hnl l List.mem_cons_self) hp
                (Or.inr rfl)
            · refine ih hnl' (Or.inr ?_) h
              rw [← List.append_assoc, List.getLast?_append]
              rfl
        | gen b =>
            rw [toSegments_gen hi]
            rcases ih hnl' (p := [newline]) (Or.inr rfl) (by simpa using h) with hl | ⟨t, ht, hm⟩
            · exact Or.inl hl
            · exact Or.inr ⟨t, List.mem_append_right _ (List.mem_cons_of_mem _ ht), hm⟩

/-- **A doc whose text has no opening marker line is laid out as plain items.** -/
theorem plain_itemsOf {content : Bytes}
    (h : ∀ t, .text t ∈ parseBlocks content → ∀ l ∈ linesOf t, isOpen l = false) :
    Plain (itemsOf content) := by
  have hq := quiet_itemsOf content
  refine ⟨fun l hl => ⟨newline_notMem_of_quiet hq l hl, ?_⟩, fun b hb => goodBlock_of_quiet hq hb⟩
  rcases exists_text_of_line (newline_notMem_of_quiet hq) (p := []) (Or.inl rfl) hl with
    rfl | ⟨t, ht, hm⟩
  · simp
  · rw [← parseBlocks_eq_toSegments] at ht
    exact h t ht l hm

/-! ### Losslessness -/

/-- Segments in normal form are read back. -/
theorem parseBlocks_renderSegments_normalForm {segs : List Segment} (hn : NormalForm segs)
    (ha : BlocksApart segs) : parseBlocks (renderSegments segs) = segs := by
  obtain ⟨items, hi, hp, -⟩ := toItems_normalForm hn ha
  rw [parseBlocks_renderSegments hi hp.quiet, coalesce_normalForm hn]

/-- **Losslessness.**  The scanner terminates on every content, and what it returns renders to the
content; no body it returns has a line that opens a block, nor a closing marker after its first
line; and segments in normal form whose blocks are apart are read back. -/
theorem parseBlocks_lossless :
    (∀ content : Bytes,
      parseLoop content (content.length + 1) 0 0 [] = some (parseBlocks content) ∧
      renderSegments (parseBlocks content) = content ∧
      ∀ b, .block b ∈ parseBlocks content →
        (∀ l ∈ linesOf b.body, isOpen l = false) ∧ closeMarker ∉ (linesOf b.body).tail) ∧
    ∀ segs : List Segment, NormalForm segs → BlocksApart segs →
      parseBlocks (renderSegments segs) = segs := by
  refine ⟨fun content => ⟨parseLoop_terminates content, renderSegments_parseBlocks content, ?_⟩, ?_⟩
  · intro b hb
    have := goodBlock_of_mem_parseBlocks hb
    exact ⟨this.no_open, this.no_close⟩
  · exact fun segs hn ha => parseBlocks_renderSegments_normalForm hn ha

/-- A block for fixed inputs. -/
def sampleBlock : Block := ⟨bytes "k", bytes "0123456789ab", bytes "x"⟩

/-- A block and a line of text after it are read back. -/
theorem parseBlocks_lossless_sample :
    parseBlocks (renderSegments [.block sampleBlock, .text (bytes "\ny")]) =
      [.block sampleBlock, .text (bytes "\ny")] :=
  parseBlocks_lossless.2 _ ⟨by decide, by decide⟩ (by
    simp [BlocksApart, Segment.block?])

/-- **Adjacent blocks are not read back**: the closing marker of the first and the opening marker
of the second share a line. -/
theorem adjacent_blocks_not_read_back :
    NormalForm [.block sampleBlock, .block sampleBlock] ∧
      parseBlocks (renderSegments [.block sampleBlock, .block sampleBlock]) ≠
        [.block sampleBlock, .block sampleBlock] := by
  refine ⟨⟨by decide, by decide⟩, ?_⟩
  decide

end WiseLabz.Doc
