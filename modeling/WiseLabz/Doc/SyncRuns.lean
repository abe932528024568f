/-
**Runs of syncs over one doc.**

A sync merges a render into the doc and stores the printed result, which the next sync reads back.
Human text must survive any number of syncs: the texts outside blocks and the edited bodies.  One
merge keeps them, but a stray opening marker in the text can, once the merge has taken a block out,
be closed by a stray closing marker further down, and what lies between is then a generated block.
This module says exactly when the printed result is read back as it was merged, and follows the
human text through runs of syncs of which that holds.

Main definitions:

* `Doc.humanText` — the pieces of a doc that belong to humans;
* `Doc.syncMachine` — **a doc, the keys of its last render, and its syncs**;
* `Doc.NoStrayClose` — no stray opening marker is closed;
* `Doc.Undisturbed` — the syncs whose result is read back as it was merged.

Main results:

* `Doc.humanParts_merge` — one merge keeps the human text;
* `Doc.parseBlocks_sync` — the result of an undisturbed sync is read back;
* `Doc.undisturbed_run_keeps_humanText` — **runs of undisturbed syncs keep the human text**;
* `Doc.sync_absorbs_human_text` — a run of two syncs that loses human text;
* `Doc.merge_again` — merging the same render again changes nothing.
-/

import WiseLabz.Lib.InOrder
import WiseLabz.Lib.Machine
import WiseLabz.Lib.Sha256
import WiseLabz.Doc.MergeLayout

set_option relaxedAutoImplicit false
set_option autoImplicit false

namespace WiseLabz.Doc

open Lib

/-! ### Human text -/

/-- What of a segment belongs to humans: a text, or the body of an edited block. -/
def humanPart : Segment → Option Bytes
  | .text t => some t
  | .block b => if b.edited then some b.body else none

/-- The human pieces of segments. -/
def humanParts (segs : List Segment) : List Bytes := segs.filterMap humanPart

/-- **The human text of a doc**: its texts outside blocks and its edited block bodies, in order. -/
def humanText (content : Bytes) : List Bytes := humanParts (parseBlocks content)

theorem humanParts_cons (s : Segment) (segs : List Segment) :
    humanParts (s :: segs) = (humanPart s).toList ++ humanParts segs := by
  rw [humanParts, List.filterMap_cons]
  cases humanPart s <;> rfl

@[simp] theorem humanParts_text (t : Bytes) (segs : List Segment) :
    humanParts (.text t :: segs) = t :: humanParts segs := rfl

theorem humanParts_append (segs segs' : List Segment) :
    humanParts (segs ++ segs') = humanParts segs ++ humanParts segs' := List.filterMap_append

/-- What of a segment belongs to humans is printed unchanged. -/
theorem inOrder_humanPart (s : Segment) : InOrder (humanPart s).toList (renderSegment s) := by
  cases s with
  | text t => exact ⟨[], [], by simp [renderSegment], trivial⟩
  | block b =>
      by_cases he : b.edited = true
      · have hpart : (humanPart (.block b)).toList = [b.body] := by simp [humanPart, he]
        rw [hpart]
        exact ⟨openLine b ++ [newline], newline :: closeMarker, by simp [renderSegment], trivial⟩
      · simp [humanPart, he]

/-- **The human pieces of segments occur in order in their printed form.** -/
theorem inOrder_humanParts (segs : List Segment) :
    InOrder (humanParts segs) (renderSegments segs) := by
  induction segs with
  | nil => trivial
  | cons s segs ih =>
      rw [humanParts_cons]
      exact (inOrder_humanPart s).append ih

/-- Joining adjacent texts keeps the human pieces. -/
theorem embeds_coalesceFrom {fs : List Bytes} {p : Bytes} (hf : InOrder fs p)
    (segs : List Segment) :
    Embeds (fs ++ humanParts segs) (humanParts (coalesceFrom p segs)) := by
  have hflush : ∀ {gs : List Bytes} {q : Bytes}, InOrder gs q →
      Embeds gs (humanParts (flush q)) := by
    intro gs q hg
    by_cases hq : q = []
    · subst hq
      simpa [humanParts] using Embeds.append_empty hg.eq_nil_of_nil (.nil (α := UInt8))
    · simpa [flush, hq, humanParts, humanPart] using Embeds.of_inOrder hg
  induction segs generalizing fs p with
  | nil => simpa [humanParts, coalesceFrom] using hflush hf
  | cons s segs ih =>
      cases s with
      | text t =>
          have ht : InOrder (fs ++ [t]) (p ++ t) := hf.append ⟨[], [], by simp, trivial⟩
          simpa [coalesceFrom] using ih ht
      | block b =>
          rw [coalesceFrom, humanParts_append, humanParts_cons, humanParts_cons]
          refine (hflush hf).append ((Embeds.refl _).append ?_)
          exact ih (InOrder.nil [])

theorem embeds_coalesce (segs : List Segment) :
    Embeds (humanParts segs) (humanParts (coalesce segs)) :=
  embeds_coalesceFrom (InOrder.nil []) segs

/-- What is kept of segments holds their human pieces. -/
theorem humanParts_kept (fresh : List Block) (segs : List Segment) :
    (humanParts segs).Sublist (humanParts (segs.filterMap (kept fresh))) := by
  induction segs with
  | nil => exact List.Sublist.refl _
  | cons s segs ih =>
      have hs : (humanPart s).toList.Sublist (humanParts (kept fresh s).toList) := by
        cases s with
        | text t => exact List.Sublist.refl _
        | block b =>
            by_cases he : b.edited = true
            · cases hf : freshByKey fresh b.key <;>
                simp [humanPart, humanParts, kept, keptBlock, he, hf]
            · simp [humanPart, he]
      have hcons : (s :: segs).filterMap (kept fresh) =
          (kept fresh s).toList ++ segs.filterMap (kept fresh) := by
        rw [List.filterMap_cons]
        cases kept fresh s <;> rfl
      rw [humanParts_cons, hcons, humanParts_append]
      exact hs.append ih

theorem Inserted.sublist {nb : Block} {out out' : List Segment} (h : Inserted nb out out') :
    out.Sublist out' := by
  cases h with
  | after segs segs' b =>
      refine List.Sublist.append (List.Sublist.refl segs) (List.Sublist.cons_cons _ ?_)
      exact (List.Sublist.refl segs').cons _ |>.cons _
  | first => exact List.nil_sublist _
  | newline => exact List.sublist_append_left _ _
  | last => exact List.sublist_append_left _ _

/-- **One merge keeps the human text.** -/
theorem humanParts_merge (existing : List Segment) (prevKeys : List Bytes) (fresh : List Block) :
    (humanParts existing).Sublist (humanParts (merge existing prevKeys fresh).1) :=
  merge_induction (P := fun out => (humanParts existing).Sublist (humanParts out))
    (humanParts_kept fresh existing)
    fun _ _ _ _ _ _ hP hi => hP.trans (hi.sublist.filterMap humanPart)

/-! ### Syncs -/

/-- The content that a sync stores. -/
def syncContent (content : Bytes) (prevKeys : List Bytes) (r : Render) : Bytes :=
  renderSegments (merge (parseBlocks content) prevKeys r.blocks).1

/-- A doc's content with the keys of the render applied last. -/
structure SyncState where
  content : Bytes
  prevKeys : List Bytes

/-- One sync: the merged content is stored, and the keys of the render with it. -/
def SyncState.sync (s : SyncState) (r : Render) : SyncState :=
  ⟨syncContent s.content s.prevKeys r, r.keys⟩

/-- **The syncs of one doc**, from any content and with any renders. -/
def syncMachine : Machine SyncState Render where
  init _ := True
  step s r t := t = s.sync r

/-! ### When the result is read back -/

/-- No opening marker in the text is followed by a closing marker, not directly and before another
opening marker: nothing in the text could be read as a block. -/
def NoStrayClose : List Item → Prop
  | [] => True
  | .line l :: items =>
      (isOpen l = true → closeScan true (items.flatMap Item.lines) = none) ∧ NoStrayClose items
  | .gen _ :: items => NoStrayClose items

/-- The syncs whose result is read back as it was merged.  In what the merge keeps of the doc no
opening marker in the text may be closed; and if the text has an opening marker at all, each
section that the sync inserts must have a key that a marker can carry. -/
structure Undisturbed (s : SyncState) (r : Render) : Prop where
  stray : NoStrayClose (keptItems r.blocks (itemsOf s.content))
  keys : (∀ b ∈ r.blocks, b.key ∉ s.prevKeys → KeyOk b.key) ∨
    ∀ l, .line l ∈ keptItems r.blocks (itemsOf s.content) → isOpen l = false

/-- Quiet items are those whose lines are lines, whose blocks are read back, and in whose text no
opening marker is closed. -/
theorem quiet_iff {items : List Item} :
    Quiet items ↔ (∀ l, .line l ∈ items → newline ∉ l) ∧ (∀ b, .gen b ∈ items → GoodBlock b) ∧
      NoStrayClose items := by
  induction items with
  | nil => simp [Quiet, NoStrayClose]
  | cons item items ih =>
      cases item with
      | line l =>
          simp only [Quiet, NoStrayClose, ih, List.mem_cons, Item.line.injEq, reduceCtorEq,
            false_or, forall_eq_or_imp]
          tauto
      | gen b =>
          simp only [Quiet, NoStrayClose, ih, List.mem_cons, Item.gen.injEq, reduceCtorEq,
            false_or, forall_eq_or_imp]
          tauto

/-- The items of what a merge keeps are lines and blocks that are read back. -/
theorem keptItems_ok {r : Render} {items : List Item} (h : Quiet items) :
    (∀ l, .line l ∈ keptItems r.blocks items → newline ∉ l) ∧
      ∀ b, .gen b ∈ keptItems r.blocks items → GoodBlock b := by
  obtain ⟨hl, hb, -⟩ := quiet_iff.1 h
  have hpart : ∀ item ∈ items, (∀ l, .line l ∈ replaceItem (keptBlock r.blocks) item → newline ∉ l) ∧
      ∀ b, .gen b ∈ replaceItem (keptBlock r.blocks) item → GoodBlock b := by
    intro item hi
    cases item with
    | line l =>
        refine ⟨fun l' hl' => ?_, fun b hb' => by simp [replaceItem] at hb'⟩
        obtain rfl : l' = l := by simpa [replaceItem] using hl'
        exact hl _ hi
    | gen b =>
        have hp := plain_replacedItems (r := r) (hb b hi)
        exact ⟨fun l' hl' => (hp.1 l' hl').1, hp.2⟩
  constructor
  · intro l hm
    obtain ⟨item, hi, hm⟩ := List.mem_flatMap.1 hm
    exact (hpart item hi).1 l hm
  · intro b hm
    obtain ⟨item, hi, hm⟩ := List.mem_flatMap.1 hm
    exact (hpart item hi).2 b hm

/-- What a sync reads back, when every section it inserts has a key that a marker can carry. -/
theorem quiet_merge {s : SyncState} {r : Render}
    (hs : NoStrayClose (keptItems r.blocks (itemsOf s.content)))
    (hk : ∀ b ∈ r.blocks, b.key ∉ s.prevKeys → KeyOk b.key) :
    ∃ items, toItems (merge (parseBlocks s.content) s.prevKeys r.blocks).1 = some items ∧
      Quiet items := by
  obtain ⟨hl, hb⟩ := keptItems_ok (r := r) (quiet_itemsOf s.content)
  refine merge_induction (P := fun out => ∃ items, toItems out = some items ∧ Quiet items)
    ⟨_, toItems_kept r.blocks s.content, quiet_iff.2 ⟨hl, hb, hs⟩⟩ ?_
  rintro nb hmem hnk out out' - ⟨items, hi, hq⟩ hins
  obtain ⟨items', hi', hins'⟩ := hins.toItems hi
  exact ⟨items', hi', hq.inserted (r.goodBlock_of_mem hmem (hk nb hmem hnk)) hins'⟩

/-! ### Blocks whose key no marker can carry -/

/-- A block as it is read back: as text, if no marker can carry its key. -/
def asRead (b : Block) : Option Segment :=
  some (if KeyOk b.key then .block b else .text (renderSegment (.block b)))

theorem renderSegments_asRead (segs : List Segment) :
    renderSegments (segs.filterMap (replaceSegment asRead)) = renderSegments segs := by
  induction segs with
  | nil => rfl
  | cons s segs ih =>
      have hcons : ∀ (s : Segment) (segs : List Segment),
          renderSegments (s :: segs) = renderSegment s ++ renderSegments segs := fun _ _ => rfl
      cases s with
      | text t => simpa [replaceSegment, hcons] using ih
      | block b =>
          by_cases hk : KeyOk b.key
          · simpa [replaceSegment, asRead, hk, hcons] using ih
          · simpa [replaceSegment, asRead, hk, hcons, show ∀ t, renderSegment (.text t) = t from
              fun _ => rfl] using ih

/-- Reading blocks as text keeps the human pieces. -/
theorem embeds_asRead (segs : List Segment) :
    Embeds (humanParts segs) (humanParts (segs.filterMap (replaceSegment asRead))) := by
  induction segs with
  | nil => exact .nil
  | cons s segs ih =>
      cases s with
      | text t => exact ih.keep t
      | block b =>
          by_cases hk : KeyOk b.key
          · have : (Segment.block b :: segs).filterMap (replaceSegment asRead) =
                .block b :: segs.filterMap (replaceSegment asRead) := by
              simp [replaceSegment, asRead, hk]
            rw [this, humanParts_cons, humanParts_cons]
            exact (Embeds.refl _).append ih
          · have : (Segment.block b :: segs).filterMap (replaceSegment asRead) =
                .text (renderSegment (.block b)) :: segs.filterMap (replaceSegment asRead) := by
              simp [replaceSegment, asRead, hk]
            rw [this, humanParts_cons, humanParts_text]
            exact .cons (inOrder_humanPart _) ih

/-- A quoted byte is written as it is or starts with a backslash. -/
theorem quoteByte_cases (b : UInt8) :
    (quoteByte b = [b] ∧ b ≠ 34) ∨ ∃ z, quoteByte b = 92 :: z := by
  unfold quoteByte
  split
  · exact Or.inr ⟨_, rfl⟩
  split
  · rename_i hb _
    exact Or.inl ⟨rfl, fun h => hb (Or.inl h)⟩
  split
  all_goals exact Or.inr ⟨_, rfl⟩

/-- A quoted key that reads as a key of the marker grammar is that key: an escape would start with
a backslash, which is neither a key character nor a quote. -/
theorem key_of_quote {key k : Bytes} (hk : ∀ b ∈ k, isKeyChar b = true) {x y : Bytes}
    (h : key.flatMap quoteByte ++ 34 :: x = k ++ 34 :: y) : key = k := by
  induction key generalizing k with
  | nil =>
      cases k with
      | nil => rfl
      | cons c k =>
          obtain rfl : (34 : UInt8) = c := (List.cons.inj h).1
          exact absurd (hk _ List.mem_cons_self) (by decide)
  | cons b key ih =>
      rw [List.flatMap_cons, List.append_assoc] at h
      rcases quoteByte_cases b with ⟨hq, hb⟩ | ⟨z, hq⟩
      · rw [hq, List.singleton_append] at h
        cases k with
        | nil => exact (hb (List.cons.inj h).1).elim
        | cons c k =>
            obtain ⟨rfl, htail⟩ := List.cons.inj h
            rw [ih (fun b hb => hk b (List.mem_cons_of_mem _ hb)) htail]
      · rw [hq] at h
        cases k with
        | nil => simp at h
        | cons c k =>
            obtain rfl : (92 : UInt8) = c := (List.cons.inj h).1
            exact absurd (hk _ List.mem_cons_self) (by decide)

/-- A printed opening line is an opening marker only for a key of the marker grammar. -/
theorem keyOk_of_isOpen_openLine {b : Block} (h : isOpen (openLine b) = true) : KeyOk b.key := by
  obtain ⟨⟨key, hash⟩, hm⟩ := Option.isSome_iff_exists.1 h
  obtain ⟨hk, -, he⟩ := openMarkerRe_eq_some.1 hm
  have h₁ : bytes "<!-- wl:gen key=\"" = bytes "<!-- wl:gen key=" ++ [34] := by decide
  have h₂ : bytes "\" h=\"" = 34 :: bytes " h=\"" := by decide
  rw [openLine, quote, h₁, h₂] at he
  simp only [List.append_assoc, List.cons_append, List.nil_append] at he
  have he' := List.append_cancel_left he
  rw [List.cons.injEq] at he'
  have : b.key.flatMap quoteByte ++ 34 :: (bytes " h=" ++ (quote b.hash ++ bytes " -->")) =
      key ++ 34 :: (bytes " h=\"" ++ (hash ++ bytes "\" -->")) := by simpa using he'.2
  exact key_of_quote hk.2 this ▸ hk

theorem linesOf_render_block (b : Block) :
    linesOf (renderSegment (.block b)) = Item.lines (.gen b) := by
  rw [← joinLines_gen_lines]
  have hnl : ∀ l, Item.line l ∈ [Item.gen b] → newline ∉ l := by simp
  refine linesOf_joinLines (by simp [Item.lines]) fun l hl => ?_
  exact newline_notMem_lines hnl l (by simpa using hl)

/-- A fresh block is read back, or is read as text without an opening marker. -/
theorem plain_asRead {r : Render} {nb : Block} (h : nb ∈ r.blocks) :
    Plain (replacedItems (asRead nb)) := by
  by_cases hk : KeyOk nb.key
  · simpa [asRead, hk, replacedItems] using plain_gen.2 ⟨r.goodBlock_of_mem h hk, plain_nil⟩
  · have hopen : ∀ l ∈ linesOf (renderSegment (.block nb)), isOpen l = false := by
      intro l hl
      rw [linesOf_render_block] at hl
      simp only [Item.lines, List.mem_cons, List.mem_append, List.not_mem_nil, or_false] at hl
      rcases hl with rfl | hl | rfl
      · by_contra ho
        exact hk (keyOk_of_isOpen_openLine (by simpa using ho))
      · exact (r.line_of_mem h hl).1
      · simp
    simpa [asRead, hk, replacedItems] using plain_lines_text hopen

theorem plain_flatMap {f : Item → List Item} {items : List Item} :
    Plain (items.flatMap f) ↔ ∀ item ∈ items, Plain (f item) := by
  induction items with
  | nil => simp
  | cons item items ih => rw [List.flatMap_cons, plain_append, ih]; simp

/-- The items after an insertion are those before it, the inserted block and empty lines. -/
theorem InsertedItem.mem {nb : Block} {items items' : List Item}
    (h : InsertedItem nb items items') {item : Item} (hm : item ∈ items') :
    item ∈ items ∨ item = .line [] ∨ item = .gen nb := by
  cases h with
  | after P J b =>
      simp only [List.mem_append, List.mem_cons] at hm ⊢
      tauto
  | first =>
      simp only [List.mem_cons, List.not_mem_nil, or_false] at hm
      tauto
  | newline =>
      simp only [List.mem_append, List.mem_cons, List.not_mem_nil, or_false] at hm
      tauto
  | last =>
      simp only [List.mem_append, List.mem_cons, List.not_mem_nil, or_false] at hm
      tauto

/-- What a sync reads back, when the text has no opening marker. -/
theorem plain_merge {s : SyncState} {r : Render}
    (hl : ∀ l, .line l ∈ keptItems r.blocks (itemsOf s.content) → isOpen l = false) :
    ∃ items, toItems (merge (parseBlocks s.content) s.prevKeys r.blocks).1 = some items ∧
      Plain (items.flatMap (replaceItem asRead)) := by
  obtain ⟨hnl, hb⟩ := keptItems_ok (r := r) (quiet_itemsOf s.content)
  refine merge_induction (P := fun out => ∃ items, toItems out = some items ∧
    Plain (items.flatMap (replaceItem asRead))) ⟨_, toItems_kept r.blocks s.content, ?_⟩ ?_
  · refine plain_flatMap.2 fun item hi => ?_
    cases item with
    | line l => exact plain_line.2 ⟨⟨hnl l hi, hl l hi⟩, plain_nil⟩
    | gen b =>
        have hgood := hb b hi
        simpa [replaceItem, asRead, hgood.key, replacedItems] using
          plain_gen.2 ⟨hgood, plain_nil⟩
  · rintro nb hmem - out out' - ⟨items, hi, hp⟩ hins
    obtain ⟨items', hi', hins'⟩ := hins.toItems hi
    refine ⟨items', hi', plain_flatMap.2 fun item hm => ?_⟩
    rcases hins'.mem hm with hm | rfl | rfl
    · exact plain_flatMap.1 hp item hm
    · exact plain_line.2 ⟨by simp, plain_nil⟩
    · exact plain_asRead hmem

/-! ### Runs -/

/-- **The result of an undisturbed sync is read back**: up to blocks that are read as text and
adjacent texts that are joined, its segments are the merged ones. -/
theorem parseBlocks_sync {s : SyncState} {r : Render} (h : Undisturbed s r) :
    ∃ segs, parseBlocks (s.sync r).content = coalesce segs ∧
      Embeds (humanParts (merge (parseBlocks s.content) s.prevKeys r.blocks).1)
        (humanParts segs) := by
  rcases h.keys with hk | hl
  · obtain ⟨items, hi, hq⟩ := quiet_merge h.stray hk
    exact ⟨_, parseBlocks_renderSegments hi hq, Embeds.refl _⟩
  · obtain ⟨items, hi, hp⟩ := plain_merge hl
    refine ⟨_, ?_, embeds_asRead _⟩
    rw [SyncState.sync, syncContent, ← renderSegments_asRead]
    exact parseBlocks_renderSegments (toItems_replace hi) hp.quiet

/-- What an undisturbed sync does to the human text. -/
theorem embeds_sync {s : SyncState} {r : Render} (h : Undisturbed s r) :
    Embeds (humanText s.content) (humanText (s.sync r).content) := by
  obtain ⟨segs, hsegs, he⟩ := parseBlocks_sync h
  have hmerge := Embeds.of_sublist (humanParts_merge (parseBlocks s.content) s.prevKeys r.blocks)
  have hcoalesce := embeds_coalesce segs
  rw [← hsegs] at hcoalesce
  exact (hmerge.trans he).trans hcoalesce

/-- The human text of a doc occurs in it. -/
theorem inOrder_humanText (content : Bytes) : InOrder (humanText content) content := by
  simpa [humanText, renderSegments_parseBlocks] using inOrder_humanParts (parseBlocks content)

/-- **Runs of undisturbed syncs keep the human text**: after each of them it occurs in the doc,
unchanged and in its order. -/
theorem undisturbed_run_keeps_humanText {s t : SyncState} {renders : List Render}
    (h : Machine.Run (syncMachine.restrict Undisturbed) s renders t) :
    InOrder (humanText s.content) t.content := by
  have hembeds : Embeds (humanText s.content) (humanText t.content) := by
    refine h.invariant (I := fun u => Embeds (humanText s.content) (humanText u.content))
      ?_ (Embeds.refl _)
    rintro u r v hu ⟨hund, rfl⟩
    exact hu.trans (embeds_sync hund)
  exact hembeds.inOrder (inOrder_humanText t.content)

-- A doc without a marker is human text.
example : humanText (bytes "note\n") = [bytes "note\n"] := by decide

/-! ### A run that loses human text -/

theorem SyncState.sync_content (s : SyncState) (r : Render) :
    (s.sync r).content = syncContent s.content s.prevKeys r := rfl

/-- The render without any block. -/
def emptyRender : Render := ⟨[], by simp, by simp [blockKeys]⟩

/-- A line of human text after a stray opening marker, a generated block, and a stray closing
marker. -/
def strayDoc : Bytes :=
  openLine ⟨bytes "a", hashBody (bytes "human\n"), []⟩ ++ bytes "\nhuman\n" ++
    renderSegment (.block (newBlock (bytes "b") (bytes "gen"))) ++ newline :: closeMarker ++ [newline]

/-- An undisturbed sync that refreshes the block of a doc and leaves its text alone. -/
def plainDoc : Bytes :=
  bytes "intro\n" ++ renderSegment (.block (newBlock (bytes "b") (bytes "gen"))) ++ bytes "\nnote\n"

theorem hashBody_human : hashBody (bytes "human\n") = bytes "14becaa98801" := by
  rw [hashBody, Sha256.sum_eq_sumNat]
  decide +kernel

theorem newBlock_gen :
    newBlock (bytes "b") (bytes "gen") = ⟨bytes "b", bytes "3b6a765ede67", bytes "gen"⟩ := by
  have hbody : neutralise 0 (bytes "gen") = bytes "gen" := by decide
  have hhash : hashBody (bytes "gen") = bytes "3b6a765ede67" := by
    rw [hashBody, Sha256.sum_eq_sumNat]
    decide +kernel
  simp only [newBlock, hbody, hhash]

set_option maxRecDepth 100000 in
/-- The doc is read back as its text and its block. -/
theorem parseBlocks_plainDoc : parseBlocks plainDoc = [.text (bytes "intro\n"),
    .block (newBlock (bytes "b") (bytes "gen")), .text (bytes "\nnote\n")] := by
  have hdoc : plainDoc = renderSegments [.text (bytes "intro\n"),
      .block (newBlock (bytes "b") (bytes "gen")), .text (bytes "\nnote\n")] := by
    simp [plainDoc, renderSegments, renderSegment]
  have hbody : ∀ l ∈ linesOf (newBlock (bytes "b") (bytes "gen")).body,
      isOpen l = false ∧ l ≠ closeMarker := by
    rw [newBlock_gen]
    decide
  have hintro : ∀ l ∈ linesOf (bytes "intro\n"), isOpen l = false := by decide
  have hnote : ∀ l ∈ linesOf (bytes "\nnote\n"), isOpen l = false := by decide
  rw [hdoc]
  refine parseBlocks_renderSegments_normalForm ⟨?_, ?_⟩ (by simp [BlocksApart, Segment.block?])
  · intro seg hseg
    simp only [List.mem_cons, List.not_mem_nil, or_false] at hseg
    rcases hseg with rfl | rfl | rfl
    · exact ⟨by decide, hintro⟩
    · exact ⟨by decide, hashOk_newBlock _ _, hbody⟩
    · exact ⟨by decide, hnote⟩
  · have hbefore : MayFollow (.text (bytes "intro\n"))
        (.block (newBlock (bytes "b") (bytes "gen"))) :=
      show (bytes "intro\n").getLast? = some newline by decide
    have hafter : MayFollow (.block (newBlock (bytes "b") (bytes "gen")))
        (.text (bytes "\nnote\n")) :=
      show (bytes "\nnote\n").head? = some newline by decide
    simp [hbefore, hafter]

set_option maxRecDepth 100000 in
/-- The human text around a block stays when the block is gone. -/
theorem undisturbed_run_plainDoc :
    InOrder (humanText plainDoc) (syncContent plainDoc [bytes "b"] emptyRender) := by
  have hund : Undisturbed ⟨plainDoc, [bytes "b"]⟩ emptyRender := by
    refine ⟨?_, Or.inl ?_⟩
    · have hitems := toItems_kept emptyRender.blocks plainDoc
      have hkept : (parseBlocks plainDoc).filterMap (kept emptyRender.blocks) =
          [.text (bytes "intro\n"), .text (bytes "\nnote\n")] := by
        rw [parseBlocks_plainDoc]
        simp [kept, keptBlock, freshByKey, emptyRender]
      have hlines : toItems [.text (bytes "intro\n"), .text (bytes "\nnote\n")] =
          some [.line (bytes "intro"), .line [], .line (bytes "note"), .line []] := by
        decide
      rw [hkept, hlines] at hitems
      rw [← Option.some.inj hitems]
      simp [NoStrayClose, isOpen, openMarkerRe, stripPrefix, bytes]
    · simp [emptyRender]
  generalize plainDoc = content at hund ⊢
  have hrun : Machine.Run (syncMachine.restrict Undisturbed) ⟨content, [bytes "b"]⟩ [emptyRender]
      (SyncState.sync ⟨content, [bytes "b"]⟩ emptyRender) := .single ⟨hund, rfl⟩
  have hkeep := undisturbed_run_keeps_humanText hrun
  rw [SyncState.sync_content] at hkeep
  exact hkeep

/-- What a sync with no block keeps of a doc. -/
theorem syncContent_emptyRender (content : Bytes) (prevKeys : List Bytes) :
    syncContent content prevKeys emptyRender =
      renderSegments ((parseBlocks content).filterMap (kept [])) := by
  rw [syncContent, ← mergeExisting_out]
  rfl

/-- The stray markers and the line between them, without the block. -/
def strayRest : Bytes :=
  openLine ⟨bytes "a", bytes "14becaa98801", []⟩ ++ bytes "\nhuman\n" ++
    newline :: closeMarker ++ [newline]

set_option maxRecDepth 100000 in
/-- The stray markers are apart, and the block is read between them. -/
theorem parseBlocks_strayDoc : parseBlocks strayDoc =
    [.text (openLine ⟨bytes "a", hashBody (bytes "human\n"), []⟩ ++ bytes "\nhuman\n"),
      .block (newBlock (bytes "b") (bytes "gen")), .text (newline :: closeMarker ++ [newline])] := by
  rw [strayDoc, hashBody_human, newBlock_gen]
  decide

/-- The first sync takes the block out. -/
theorem syncContent_strayDoc (prevKeys : List Bytes) :
    syncContent strayDoc prevKeys emptyRender = strayRest := by
  rw [syncContent_emptyRender, parseBlocks_strayDoc, hashBody_human]
  simp [kept, keptBlock, freshByKey, renderSegments, renderSegment, strayRest]

set_option maxRecDepth 100000 in
/-- The second sync takes the line out, which is an unedited block now. -/
theorem syncContent_strayRest (prevKeys : List Bytes) :
    syncContent strayRest prevKeys emptyRender = [newline] := by
  have hparse : parseBlocks strayRest =
      [.block ⟨bytes "a", bytes "14becaa98801", bytes "human\n"⟩, .text [newline]] := by
    decide
  have hedited : Block.edited ⟨bytes "a", bytes "14becaa98801", bytes "human\n"⟩ = false := by
    rw [Block.edited, hashBody_human]
    decide
  rw [syncContent_emptyRender, hparse]
  simp [kept, keptBlock, freshByKey, hedited, renderSegments, renderSegment]

set_option maxRecDepth 100000 in
/-- **Two syncs that lose human text.**  The block disappears upstream, so the stray markers close
over the line of text; the text is then an unedited block whose section does not exist. -/
theorem sync_absorbs_human_text :
    ¬ ∀ (s t : SyncState) (renders : List Render), Machine.Run syncMachine s renders t →
      InOrder (humanText s.content) t.content := by
  intro h
  have hrun : Machine.Run syncMachine ⟨strayDoc, [bytes "b"]⟩ [emptyRender, emptyRender]
      ((SyncState.sync ⟨strayDoc, [bytes "b"]⟩ emptyRender).sync emptyRender) :=
    (Machine.Run.single rfl).snoc rfl
  have hpart : openLine ⟨bytes "a", hashBody (bytes "human\n"), []⟩ ++ bytes "\nhuman\n" ∈
      humanText strayDoc := by
    rw [humanText, parseBlocks_strayDoc, humanParts_text]
    exact List.mem_cons_self
  have hkept : ∀ (s t : SyncState) (renders : List Render), Machine.Run syncMachine s renders t →
      ∀ part ∈ humanText s.content, part <:+: t.content :=
    fun s t renders hrun part hmem => (h s t renders hrun).piece_of_mem hmem
  have hinfix := hkept _ _ _ hrun _ hpart
  rw [SyncState.sync_content, SyncState.sync_content, syncContent_strayDoc,
    syncContent_strayRest] at hinfix
  -- a piece of more than one byte in a doc of one byte
  have hlen := hinfix.length_le
  rw [hashBody_human] at hlen
  revert hlen
  decide

/-! ### The same render again -/

/-- The fresh block of an unedited block is itself. -/
theorem kept_of_fresh {r : Render} {nb : Block} (h : nb ∈ r.blocks) :
    kept r.blocks (.block nb) = some (.block nb) := by
  simp [kept, keptBlock, r.freshByKey_of_mem h, r.edited_of_mem h]

theorem conflictOf_fresh {r : Render} {nb : Block} (h : nb ∈ r.blocks) :
    conflictOf r.blocks (.block nb) = none := by
  simp [conflictOf, r.freshByKey_of_mem h, r.edited_of_mem h]

/-- A segment that another merge with the render keeps as it is. -/
def Settled (r : Render) (s : Segment) : Prop := kept r.blocks s = some s

theorem settled_kept {r : Render} {s s' : Segment} (h : kept r.blocks s = some s') :
    Settled r s' ∧ conflictOf r.blocks s' = conflictOf r.blocks s := by
  cases s with
  | text t =>
      obtain rfl : Segment.text t = s' := by simpa [kept] using h
      exact ⟨rfl, rfl⟩
  | block b =>
      cases hf : freshByKey r.blocks b.key with
      | none =>
          by_cases he : b.edited = true
          · obtain rfl : Segment.text b.body = s' := by simpa [kept, keptBlock, hf, he] using h
            exact ⟨rfl, by simp [conflictOf, hf]⟩
          · simp [kept, keptBlock, hf, he] at h
      | some nb =>
          by_cases he : b.edited = true
          · obtain rfl : Segment.block b = s' := by simpa [kept, keptBlock, hf, he] using h
            exact ⟨by simp [Settled, kept, keptBlock, hf, he], rfl⟩
          · obtain rfl : Segment.block nb = s' := by simpa [kept, keptBlock, hf, he] using h
            have hmem := (freshByKey_eq_some hf).1
            exact ⟨kept_of_fresh hmem, by rw [conflictOf_fresh hmem]; simp [conflictOf, hf, he]⟩

/-- Settled segments without an inserted block's conflict, as an invariant of the merge. -/
theorem merge_settled (existing : List Segment) (prevKeys : List Bytes) (r : Render) :
    (∀ s ∈ (merge existing prevKeys r.blocks).1, Settled r s) ∧
      (merge existing prevKeys r.blocks).1.filterMap (conflictOf r.blocks) =
        (merge existing prevKeys r.blocks).2 := by
  rw [merge_conflicts]
  refine merge_induction (P := fun out => (∀ s ∈ out, Settled r s) ∧
    out.filterMap (conflictOf r.blocks) = existing.filterMap (conflictOf r.blocks)) ⟨?_, ?_⟩ ?_
  · intro s hs
    obtain ⟨s₀, -, h₀⟩ := List.mem_filterMap.1 hs
    exact (settled_kept h₀).1
  · rw [List.filterMap_filterMap]
    refine List.filterMap_congr fun s _ => ?_
    cases hk : kept r.blocks s with
    | some s' => simpa using (settled_kept hk).2
    | none =>
        -- a dropped block has no conflict
        cases s with
        | text t => simp [kept] at hk
        | block b =>
            cases hf : freshByKey r.blocks b.key with
            | none => simp [conflictOf, hf]
            | some nb => simp [kept, keptBlock, hf] at hk
  · rintro nb hmem - out out' - ⟨hset, hconf⟩ hins
    have htext : ∀ t, Settled r (.text t) := fun t => rfl
    have hnb : Settled r (.block nb) := kept_of_fresh hmem
    have hnone := conflictOf_fresh hmem
    have hnone' : ∀ t, conflictOf r.blocks (.text t) = none := fun _ => rfl
    cases hins with
    | after segs segs' b =>
        refine ⟨fun s hs => ?_, ?_⟩
        · simp only [List.mem_append, List.mem_cons] at hset hs
          rcases hs with hs | rfl | rfl | rfl | hs
          · exact hset s (Or.inl hs)
          · exact hset _ (Or.inr (Or.inl rfl))
          · exact htext _
          · exact hnb
          · exact hset s (Or.inr (Or.inr hs))
        rw [← hconf]
        simp [List.filterMap_append, List.filterMap_cons, hnone, hnone']
    | first =>
        refine ⟨by simp [htext, hnb], ?_⟩
        rw [← hconf]
        simp [hnone, hnone']
    | newline =>
        simp only [List.mem_append, List.mem_cons, List.not_mem_nil, or_false, or_imp, forall_and,
          forall_eq]
        refine ⟨⟨hset, htext _, hnb, htext _⟩, ?_⟩
        rw [← hconf]
        simp [List.filterMap_append, hnone, hnone']
    | last =>
        simp only [List.mem_append, List.mem_cons, List.not_mem_nil, or_false, or_imp, forall_and,
          forall_eq]
        refine ⟨⟨hset, htext _, hnb⟩, ?_⟩
        rw [← hconf]
        simp [List.filterMap_append, hnone, hnone']

/-- Joining texts commutes with what a further merge keeps and reports. -/
theorem settled_coalesceFrom {r : Render} {segs : List Segment} (h : ∀ s ∈ segs, Settled r s)
    (p : Bytes) :
    (∀ s ∈ coalesceFrom p segs, Settled r s) ∧
      (coalesceFrom p segs).filterMap (conflictOf r.blocks) =
        segs.filterMap (conflictOf r.blocks) := by
  have hflush : ∀ q : Bytes, (∀ s ∈ flush q, Settled r s) ∧
      (flush q).filterMap (conflictOf r.blocks) = [] := by
    intro q
    unfold flush
    split
    · simp
    · simp [Settled, kept, conflictOf]
  induction segs generalizing p with
  | nil => exact hflush p
  | cons s segs ih =>
      have hs := h s List.mem_cons_self
      have ih := ih fun s' h' => h s' (List.mem_cons_of_mem s h')
      cases s with
      | text t => exact ih (p ++ t)
      | block b =>
          obtain ⟨ih₁, ih₂⟩ := ih []
          obtain ⟨hf₁, hf₂⟩ := hflush p
          rw [coalesceFrom]
          constructor
          · intro s hm
            rcases List.mem_append.1 hm with hm | hm
            · exact hf₁ s hm
            · rcases List.mem_cons.1 hm with rfl | hm
              · exact hs
              · exact ih₁ s hm
          · rw [List.filterMap_append, hf₂, List.nil_append, List.filterMap_cons, ih₂,
              List.filterMap_cons]

/-- **Merging the same render again changes nothing**: if the merged segments are read back, the
second merge writes the same content and finds the same conflicts. -/
theorem merge_again {existing : List Segment} {prevKeys : List Bytes} {r : Render}
    (hread : parseBlocks (renderSegments (merge existing prevKeys r.blocks).1) =
      coalesce (merge existing prevKeys r.blocks).1) :
    let c₁ := renderSegments (merge existing prevKeys r.blocks).1
    syncContent c₁ r.keys r = c₁ ∧
      (merge (parseBlocks c₁) r.keys r.blocks).2 = (merge existing prevKeys r.blocks).2 := by
  intro c₁
  obtain ⟨hset, hconf⟩ := merge_settled existing prevKeys r
  obtain ⟨hset', hconf'⟩ := settled_coalesceFrom hset []
  rw [← coalesce] at hset' hconf'
  have hsame : (coalesce (merge existing prevKeys r.blocks).1).filterMap (kept r.blocks) =
      coalesce (merge existing prevKeys r.blocks).1 := by
    rw [List.filterMap_congr hset', List.filterMap_some]
  constructor
  · have hsub : ∀ k ∈ blockKeys r.blocks, k ∈ r.keys := fun k hk => hk
    rw [syncContent, merge_of_subset hsub, hread, hsame, renderSegments_coalesce]
  · rw [merge_conflicts, hread, hconf', hconf]

end WiseLabz.Doc
