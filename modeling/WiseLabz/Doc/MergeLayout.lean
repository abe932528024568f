/-
**Merging, seen on the layout.**

The merge works on segments, but what it writes is read back as text.  This module follows the
layout of the segments through the merge: each existing item is replaced by itself, and an inserted
block comes with one empty line.  So it can be said on items when the merged doc is read back as it
was written.

Main definitions:

* `Doc.replaceSegment`, `Doc.replaceItem` — the same replacement of blocks on segments and on items;
* `Doc.InsertedItem` — the ways an inserted block shows in the layout;
* `Doc.keptItems` — **the layout of what a merge keeps of a doc**.

Main results:

* `Doc.pushAll_replace` — replacing blocks commutes with laying out;
* `Doc.Inserted.toItems` — what an insertion does to the layout;
* `Doc.Plain.inserted`, `Doc.Quiet.inserted` — insertions keep items plain and quiet;
* `Doc.plain_keptItems` — what is kept of plain items is plain.
-/

import WiseLabz.Doc.RoundTrip
import WiseLabz.Doc.Markers

set_option relaxedAutoImplicit false
set_option autoImplicit false

namespace WiseLabz.Doc

open Lib

/-! ### Replacing blocks -/

/-- Replaces each block, by nothing, a text or another block. -/
def replaceSegment (g : Block → Option Segment) : Segment → Option Segment
  | .text t => some (.text t)
  | .block b => g b

/-- What a replaced block leaves in the layout: an empty line, the lines of the text, or a block. -/
def replacedItems : Option Segment → List Item
  | none => [.line []]
  | some (.text t) => (linesOf t).map .line
  | some (.block b) => [.gen b]

/-- The same replacement on an item. -/
def replaceItem (g : Block → Option Segment) : Item → List Item
  | .line l => [.line l]
  | .gen b => replacedItems (g b)

theorem kept_eq_replaceSegment (fresh : List Block) :
    kept fresh = replaceSegment (keptBlock fresh) := by
  funext s
  cases s <;> rfl

theorem replacedItems_ne_nil (o : Option Segment) : replacedItems o ≠ [] := by
  rcases o with _ | t | b <;> simp [replacedItems]

theorem flatMap_replaceItem_ne_nil {g : Block → Option Segment} {items : List Item}
    (h : items ≠ []) : items.flatMap (replaceItem g) ≠ [] := by
  rcases items with _ | ⟨l | b, items⟩
  · simp at h
  · simp [replaceItem]
  · simp [replaceItem, replacedItems_ne_nil]

theorem pushByte_replace {g : Block → Option Segment} {b : UInt8} {items items' : List Item}
    (h : pushByte b items = some items') :
    pushByte b (items.flatMap (replaceItem g)) = some (items'.flatMap (replaceItem g)) := by
  by_cases hb : b = newline
  · subst hb
    have hne := (pushByte_ne_nil h).1
    rw [pushByte_newline hne, Option.some.injEq] at h
    rw [pushByte_newline (flatMap_replaceItem_ne_nil hne), ← h]
    rfl
  · obtain ⟨l, J, rfl, rfl⟩ := pushByte_of_ne hb h
    simp [replaceItem, pushByte, hb]

theorem pushText_replace {g : Block → Option Segment} {t : Bytes} {items items' : List Item}
    (h : pushText t items = some items') :
    pushText t (items.flatMap (replaceItem g)) = some (items'.flatMap (replaceItem g)) := by
  induction t generalizing items' with
  | nil => simp only [pushText, Option.some.injEq] at h ⊢; rw [h]
  | cons b t ih =>
      obtain ⟨J, hJ, hb⟩ := Option.bind_eq_some_iff.1 h
      rw [pushText, ih hJ, Option.bind_some, pushByte_replace hb]

/-- A replaced block takes the place of the block. -/
theorem pushAll_replaced (o : Option Segment) (items : List Item) :
    pushAll o.toList (.line [] :: items) = some (replacedItems o ++ items) := by
  rcases o with _ | t | b
  · rfl
  · simpa [pushAll, push, replacedItems] using pushText_nil_line t items
  · rfl

/-- **Replacing blocks commutes with laying out.** -/
theorem pushAll_replace {g : Block → Option Segment} {segs : List Segment}
    {items items' : List Item} (h : pushAll segs items = some items') :
    pushAll (segs.filterMap (replaceSegment g)) (items.flatMap (replaceItem g)) =
      some (items'.flatMap (replaceItem g)) := by
  induction segs generalizing items' with
  | nil => simp only [pushAll, Option.some.injEq] at h; simp [pushAll, h]
  | cons s segs ih =>
      obtain ⟨J, hJ, hs⟩ := Option.bind_eq_some_iff.1 h
      cases s with
      | text t => simp [replaceSegment, pushAll, ih hJ, push, pushText_replace hs]
      | block b =>
          obtain ⟨J, rfl, rfl⟩ := pushBlock_eq_some hs
          have hcons : (Segment.block b :: segs).filterMap (replaceSegment g) =
              (g b).toList ++ segs.filterMap (replaceSegment g) := by
            rw [List.filterMap_cons, replaceSegment]
            cases g b <;> rfl
          rw [hcons, pushAll_append, ih hJ, Option.bind_some, List.flatMap_cons, List.flatMap_cons,
            replaceItem, List.singleton_append, pushAll_replaced, replaceItem]

theorem toItems_replace {g : Block → Option Segment} {segs : List Segment} {items : List Item}
    (h : toItems segs = some items) :
    toItems (segs.filterMap (replaceSegment g)) = some (items.flatMap (replaceItem g)) :=
  pushAll_replace (show pushAll segs [.line []] = some items from h)

/-! ### Laying out before other items -/

/-- Segments are laid out before items in the same way whatever follows the first item, and a block
as first item stays as it is. -/
theorem pushByte_tail {b : UInt8} {item : Item} {J items' : List Item}
    (h : pushByte b (item :: J) = some items') :
    ∃ P item', items' = P ++ item' :: J ∧ (∀ c, item = .gen c → item' = .gen c) ∧
      ∀ J', pushByte b (item :: J') = some (P ++ item' :: J') := by
  by_cases hb : b = newline
  · subst hb
    rw [pushByte_newline (by simp), Option.some.injEq] at h
    exact ⟨[.line []], item, h.symm, fun _ hc => hc, fun J' => pushByte_newline (by simp)⟩
  · obtain ⟨l, K, hl, rfl⟩ := pushByte_of_ne hb h
    obtain ⟨rfl, rfl⟩ := List.cons.inj hl
    exact ⟨[], .line (b :: l), rfl, by simp, fun J' => by simp [pushByte, hb]⟩

theorem pushText_tail {t : Bytes} {item : Item} {J items' : List Item}
    (h : pushText t (item :: J) = some items') :
    ∃ P item', items' = P ++ item' :: J ∧ (∀ c, item = .gen c → item' = .gen c) ∧
      ∀ J', pushText t (item :: J') = some (P ++ item' :: J') := by
  induction t generalizing items' with
  | nil =>
      simp only [pushText, Option.some.injEq] at h
      exact ⟨[], item, h.symm, fun _ hc => hc, fun _ => rfl⟩
  | cons b t ih =>
      obtain ⟨K, hK, hb⟩ := Option.bind_eq_some_iff.1 h
      obtain ⟨P, item', rfl, hgen, hP⟩ := ih hK
      rcases P with _ | ⟨p, P⟩
      · obtain ⟨Q, item'', rfl, hgen', hQ⟩ := pushByte_tail hb
        refine ⟨Q, item'', rfl, fun c hc => hgen' c (hgen c hc), fun J' => ?_⟩
        rw [pushText, hP, Option.bind_some]
        exact hQ J'
      · obtain ⟨Q, p', rfl, -, hQ⟩ := pushByte_tail hb
        refine ⟨Q ++ p' :: P, item', by simp, hgen, fun J' => ?_⟩
        rw [pushText, hP, Option.bind_some, List.cons_append, hQ]
        simp

theorem push_tail {s : Segment} {item : Item} {J items' : List Item}
    (h : push s (item :: J) = some items') :
    ∃ P item', items' = P ++ item' :: J ∧ (∀ c, item = .gen c → item' = .gen c) ∧
      ∀ J', push s (item :: J') = some (P ++ item' :: J') := by
  cases s with
  | text t => exact pushText_tail h
  | block b =>
      obtain ⟨K, hK, rfl⟩ := pushBlock_eq_some h
      obtain ⟨rfl, rfl⟩ := List.cons.inj hK
      exact ⟨[], .gen b, rfl, by simp, fun _ => rfl⟩

theorem pushAll_tail {segs : List Segment} {item : Item} {J items' : List Item}
    (h : pushAll segs (item :: J) = some items') :
    ∃ P item', items' = P ++ item' :: J ∧ (∀ c, item = .gen c → item' = .gen c) ∧
      ∀ J', pushAll segs (item :: J') = some (P ++ item' :: J') := by
  induction segs generalizing items' with
  | nil =>
      simp only [pushAll, Option.some.injEq] at h
      exact ⟨[], item, h.symm, fun _ hc => hc, fun _ => rfl⟩
  | cons s segs ih =>
      obtain ⟨K, hK, hs⟩ := Option.bind_eq_some_iff.1 h
      obtain ⟨P, item', rfl, hgen, hP⟩ := ih hK
      rcases P with _ | ⟨p, P⟩
      · obtain ⟨Q, item'', rfl, hgen', hQ⟩ := push_tail hs
        refine ⟨Q, item'', rfl, fun c hc => hgen' c (hgen c hc), fun J' => ?_⟩
        rw [pushAll, hP, Option.bind_some]
        exact hQ J'
      · obtain ⟨Q, p', rfl, -, hQ⟩ := push_tail hs
        refine ⟨Q ++ p' :: P, item', by simp, hgen, fun J' => ?_⟩
        rw [pushAll, hP, Option.bind_some, List.cons_append, hQ]
        simp

/-! ### Insertions in the layout -/

/-- The ways an inserted block shows in the layout: with an empty line before it, after a block or
at the end, or with an empty line after it. -/
inductive InsertedItem (nb : Block) : List Item → List Item → Prop
  | after (items items' : List Item) (b : Block) :
      InsertedItem nb (items ++ .gen b :: items')
        (items ++ .gen b :: .line [] :: .gen nb :: items')
  | first : InsertedItem nb [.line []] [.gen nb, .line []]
  | newline (items : List Item) : InsertedItem nb items (items ++ [.gen nb, .line []])
  | last (items : List Item) : InsertedItem nb items (items ++ [.line [], .gen nb])

/-- **An insertion among the segments is an insertion in the layout.** -/
theorem Inserted.toItems {nb : Block} {out out' : List Segment} {items : List Item}
    (h : Inserted nb out out') (hi : toItems out = some items) :
    ∃ items', Doc.toItems out' = some items' ∧ InsertedItem nb items items' := by
  cases h with
  | after segs segs' b =>
      obtain ⟨K, hK, hs⟩ := Option.bind_eq_some_iff.1 ((toItems_append _ _).symm.trans hi)
      obtain ⟨L, hL, hb⟩ := Option.bind_eq_some_iff.1 ((toItems_cons _ _).symm.trans hK)
      obtain ⟨J, rfl, rfl⟩ := pushBlock_eq_some hb
      obtain ⟨P, item', rfl, hgen, hP⟩ := pushAll_tail hs
      obtain rfl := hgen b rfl
      refine ⟨_, ?_, .after P J b⟩
      rw [toItems_append, toItems_cons, toItems_cons, toItems_cons, hL]
      simpa [push, pushBlock, pushText, pushByte] using hP _
  | first =>
      obtain rfl : items = [.line []] := by simpa using hi.symm
      exact ⟨_, by simp [toItems_cons, push, pushBlock, pushText, pushByte], .first⟩
  | newline segs =>
      obtain ⟨P, item', rfl, -, hP⟩ := pushAll_tail hi
      refine ⟨_, ?_, .newline (P ++ [item'])⟩
      rw [toItems_append]
      simpa [toItems_cons, push, pushBlock, pushText, pushByte] using hP [.gen nb, .line []]
  | last segs =>
      obtain ⟨P, item', rfl, -, hP⟩ := pushAll_tail hi
      refine ⟨_, ?_, .last (P ++ [item'])⟩
      rw [toItems_append]
      simpa [toItems_cons, push, pushBlock, pushText, pushByte] using hP [.line [], .gen nb]

/-- Insertions keep items plain. -/
theorem Plain.inserted {nb : Block} {items items' : List Item} (hp : Plain items)
    (hnb : GoodBlock nb) (h : InsertedItem nb items items') : Plain items' := by
  have hempty : newline ∉ ([] : Bytes) ∧ isOpen [] = false := by simp
  cases h with
  | after P J b =>
      obtain ⟨hP, hJ⟩ := plain_append.1 hp
      obtain ⟨hb, hJ⟩ := plain_gen.1 hJ
      exact plain_append.2 ⟨hP, plain_gen.2 ⟨hb, plain_line.2 ⟨hempty, plain_gen.2 ⟨hnb, hJ⟩⟩⟩⟩
  | first => exact plain_gen.2 ⟨hnb, plain_line.2 ⟨hempty, plain_nil⟩⟩
  | newline =>
      exact plain_append.2 ⟨hp, plain_gen.2 ⟨hnb, plain_line.2 ⟨hempty, plain_nil⟩⟩⟩
  | last =>
      exact plain_append.2 ⟨hp, plain_line.2 ⟨hempty, plain_gen.2 ⟨hnb, plain_nil⟩⟩⟩

/-! ### Insertions and stray opening markers -/

/-- A scan that fails before an opening marker fails whatever comes after it. -/
theorem closeScan_stop {first : Bool} {ls : List Bytes} {o : Bytes} (ho : isOpen o = true)
    {r : List Bytes} (r' : List Bytes) (h : closeScan first (ls ++ o :: r) = none) :
    closeScan first (ls ++ o :: r') = none := by
  induction ls generalizing first with
  | nil =>
      have hne : o ≠ closeMarker := by
        rintro rfl
        simp at ho
      simp [closeScan, ho, hne]
  | cons l ls ih =>
      simp only [List.cons_append, closeScan] at h ⊢
      split at h
      · simp at h
      · rename_i hc
        rw [if_neg hc]
        by_cases hl : isOpen l = true
        · simp [hl]
        · simp only [hl, List.append_eq_nil_iff, reduceCtorEq, and_false, or_self,
            Option.map_eq_none_iff, if_false] at h ⊢
          exact ih h

/-- A scan that reaches the end still fails when lines and an opening marker are appended, unless
one of the lines is a closing marker. -/
theorem closeScan_append_open {first : Bool} {ls : List Bytes} (ls' : List Bytes) {o : Bytes}
    (r : List Bytes)
    (ho : isOpen o = true) (hls' : closeMarker ∉ ls') (h : closeScan first ls = none) :
    closeScan first (ls ++ (ls' ++ o :: r)) = none := by
  have hne : o ≠ closeMarker := by
    rintro rfl
    simp at ho
  induction ls generalizing first with
  | nil =>
      induction ls' generalizing first with
      | nil => simp [closeScan, ho, hne]
      | cons l ls' ih =>
          simp only [List.mem_cons, not_or] at hls'
          have : closeScan false ([] ++ (ls' ++ o :: r)) = none :=
            ih hls'.2 (by simp [closeScan])
          simp only [List.nil_append] at this
          simp [closeScan, Ne.symm hls'.1, this]
  | cons l ls ih =>
      simp only [List.cons_append, closeScan] at h ⊢
      split at h
      · simp at h
      · rename_i hc
        rw [if_neg hc]
        by_cases hl : isOpen l = true
        · simp [hl]
        · simp only [hl, Bool.false_eq_true, false_or] at h ⊢
          by_cases hnil : ls = []
          · subst hnil
            have : closeScan false ([] ++ (ls' ++ o :: r)) = none := ih (by simp [closeScan])
            simpa using this
          · simp only [hnil, if_false, Option.map_eq_none_iff] at h
            simp [hnil, ih h]

/-- Quiet items, split at a place. -/
theorem quiet_append {items items' : List Item} (h : Quiet (items ++ items')) : Quiet items' := by
  induction items with
  | nil => exact h
  | cons item items ih =>
      cases item with
      | line l => exact ih h.2.2
      | gen b => exact ih h.2

/-- Other items may follow quiet ones if the scans from their stray opening markers still fail. -/
theorem quiet_append_of {items items' items'' : List Item} (h : Quiet (items ++ items'))
    (hq : Quiet items'')
    (hscan : ∀ (first : Bool) (ls : List Bytes),
      closeScan first (ls ++ items'.flatMap Item.lines) = none →
      closeScan first (ls ++ items''.flatMap Item.lines) = none) :
    Quiet (items ++ items'') := by
  induction items with
  | nil => exact hq
  | cons item items ih =>
      cases item with
      | line l =>
          have h : Quiet (.line l :: (items ++ items')) := h
          obtain ⟨hnl, ho, hr⟩ := h
          rw [List.cons_append]
          refine ⟨hnl, fun hl => ?_, ih hr⟩
          have := ho hl
          rw [List.flatMap_append] at this ⊢
          exact hscan true _ this
      | gen b => exact ⟨h.1, ih h.2⟩

/-- **Insertions keep items quiet**: what is put between a stray opening marker and a later line is
itself led by an opening marker. -/
theorem Quiet.inserted {nb : Block} {items items' : List Item} (hq : Quiet items)
    (hnb : GoodBlock nb) (h : InsertedItem nb items items') : Quiet items' := by
  have hopen : isOpen (openLine nb) = true := isOpen_openLine hnb.key hnb.hash
  have hblank : closeMarker ∉ [([] : Bytes)] := by decide
  have hlast : Quiet [.line []] := ⟨by simp, by simp, trivial⟩
  cases h with
  | after P J b =>
      obtain ⟨hb, hJ⟩ := quiet_append hq
      have hob : isOpen (openLine b) = true := isOpen_openLine hb.key hb.hash
      refine quiet_append_of hq ⟨hb, by simp, by simp, hnb, hJ⟩ fun first ls hs => ?_
      simp only [List.flatMap_cons, Item.lines, List.cons_append] at hs ⊢
      exact closeScan_stop hob _ hs
  | first => exact ⟨hnb, hlast⟩
  | newline =>
      refine quiet_append_of (show Quiet (items ++ []) by simpa using hq) ⟨hnb, hlast⟩
        fun first ls hs => ?_
      simp only [List.flatMap_cons, Item.lines, List.cons_append] at hs ⊢
      exact closeScan_append_open [] _ hopen (by simp) (by simpa using hs)
  | last =>
      refine quiet_append_of (show Quiet (items ++ []) by simpa using hq)
        ⟨by simp, by simp, hnb, trivial⟩ fun first ls hs => ?_
      simp only [List.flatMap_cons, Item.lines, List.cons_append] at hs ⊢
      exact closeScan_append_open [[]] _ hopen hblank (by simpa using hs)

/-! ### What a merge keeps of a doc -/

/-- **The layout of what a merge keeps of a doc**: dropped blocks leave an empty line, detached
ones the lines of their bodies, refreshed ones the fresh block. -/
def keptItems (fresh : List Block) (items : List Item) : List Item :=
  items.flatMap (replaceItem (keptBlock fresh))

theorem toItems_kept (fresh : List Block) (content : Bytes) :
    toItems ((parseBlocks content).filterMap (kept fresh)) =
      some (keptItems fresh (itemsOf content)) := by
  rw [kept_eq_replaceSegment]
  exact toItems_replace (toItems_parseBlocks content)

/-- The block kept for a block that is read back is read back. -/
theorem goodBlock_keptBlock {r : Render} {b b' : Block} (hb : GoodBlock b)
    (h : keptBlock r.blocks b = some (.block b')) : GoodBlock b' := by
  cases hf : freshByKey r.blocks b.key with
  | none =>
      simp only [keptBlock, hf] at h
      split at h <;> simp at h
  | some nb =>
      obtain ⟨hmem, hkey⟩ := freshByKey_eq_some hf
      simp only [keptBlock, hf] at h
      obtain rfl := Segment.block.inj (Option.some.inj h)
      split
      · exact hb
      · exact r.goodBlock_of_mem hmem (hkey ▸ hb.key)

theorem plain_replacedItems {r : Render} {b : Block} (hb : GoodBlock b) :
    Plain (replacedItems (keptBlock r.blocks b)) := by
  cases hk : keptBlock r.blocks b with
  | none => exact plain_line.2 ⟨by simp, plain_nil⟩
  | some s =>
      cases s with
      | block b' => exact plain_gen.2 ⟨goodBlock_keptBlock hb hk, plain_nil⟩
      | text t =>
          obtain rfl : t = b.body := by
            unfold keptBlock at hk
            split at hk
            · split at hk
              · simpa using hk.symm
              · simp at hk
            · simp at hk
          exact plain_lines_text hb.no_open

/-- **What a merge keeps of plain items is plain.** -/
theorem plain_keptItems {r : Render} {items : List Item} (h : Plain items) :
    Plain (keptItems r.blocks items) := by
  induction items with
  | nil => exact plain_nil
  | cons item items ih =>
      rw [keptItems, List.flatMap_cons]
      cases item with
      | line l =>
          obtain ⟨hl, hp⟩ := plain_line.1 h
          exact plain_line.2 ⟨hl, ih hp⟩
      | gen b =>
          obtain ⟨hb, hp⟩ := plain_gen.1 h
          exact plain_append.2 ⟨plain_replacedItems hb, ih hp⟩

end WiseLabz.Doc
