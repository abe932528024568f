/-
**Where a merge puts its blocks.**

The result of a merge consists of what has become of the existing segments, in their order, of the
inserted blocks, and of the line breaks that set these apart.  An inserted block goes directly after
the nearest of the fresh blocks before it, and nothing is ever put between the two again.

Main definitions:

* `Doc.Part` — a part of the result: a segment that was there, line breaks, or an inserted block;
* `Doc.Settles`, `Doc.Reports` — what becomes of an existing segment, and the conflict it raises;
* `Doc.Placed` — where an inserted block stands;
* `Doc.Merged` — **what a merge does**.

Main results:

* `Doc.Placed.insertAt` — a later insertion leaves a block where it stands;
* `Doc.Progress.insertFresh` — one round of the insertion loop;
* `Doc.merge_places` — **the result of a merge**.
-/

import WiseLabz.Lib.Insertion
import WiseLabz.Doc.Merge
import Mathlib.Data.List.Find
import Mathlib.Data.List.Forall2
import Mathlib.Data.List.ReduceOption

set_option relaxedAutoImplicit false
set_option autoImplicit false

namespace WiseLabz.Doc

open Lib

/-! ### The parts of the result -/

/-- A part of the merged segments. -/
inductive Part
  /-- What has become of an existing segment. -/
  | old (s : Segment)
  /-- Line breaks, so many. -/
  | gap (breaks : ℕ)
  /-- An inserted block. -/
  | fresh (b : Block)
  deriving DecidableEq, Repr

def Part.segment : Part → Segment
  | .old s => s
  | .gap breaks => .text (List.replicate breaks newline)
  | .fresh b => .block b

def Part.old? : Part → Option Segment
  | .old s => some s
  | _ => none

def Part.fresh? : Part → Option Block
  | .fresh b => some b
  | _ => none

/-- The keys of the blocks. -/
def partKeys (parts : List Part) : List Bytes := blockKeys (blocksOf (parts.map Part.segment))

/-- **What becomes of an existing segment**: a text stays; a block whose key is not among the fresh
ones is dropped if it is unedited, and else leaves its body as text; and a block whose key is there
becomes the fresh one if it is unedited, and else stays. -/
inductive Settles (fresh : List Block) : Segment → Option Segment → Prop
  | text (t : Bytes) : Settles fresh (.text t) (some (.text t))
  | dropped {b : Block} (hkey : b.key ∉ blockKeys fresh) (hedited : b.edited = false) :
      Settles fresh (.block b) none
  | detached {b : Block} (hkey : b.key ∉ blockKeys fresh) (hedited : b.edited = true) :
      Settles fresh (.block b) (some (.text b.body))
  | refreshed {b nb : Block} (hmem : nb ∈ fresh) (hkey : nb.key = b.key)
      (hedited : b.edited = false) : Settles fresh (.block b) (some (.block nb))
  | kept {b nb : Block} (hmem : nb ∈ fresh) (hkey : nb.key = b.key) (hedited : b.edited = true) :
      Settles fresh (.block b) (some (.block b))

/-- **The conflict of an existing segment**: an edited block whose key is among the fresh ones, with
another hash. -/
inductive Reports (fresh : List Block) : Segment → Option Conflict → Prop
  | text (t : Bytes) : Reports fresh (.text t) none
  | unedited {b : Block} (hedited : b.edited = false) : Reports fresh (.block b) none
  | same {b : Block} (hsame : ∀ nb ∈ fresh, nb.key = b.key → nb.hash = b.hash) :
      Reports fresh (.block b) none
  | conflict {b nb : Block} (hmem : nb ∈ fresh) (hkey : nb.key = b.key)
      (hedited : b.edited = true) (hhash : nb.hash ≠ b.hash) :
      Reports fresh (.block b) (some ⟨b.key, b.body, nb⟩)

/-- The fresh block is to be inserted: its key is in neither the blocks that `old` segments are nor
the previous render. -/
def isInserted (old : List Segment) (prevKeys : List Bytes) (nb : Block) : Bool :=
  nb.key ∉ blockKeys (blocksOf old) && nb.key ∉ prevKeys

/-- **Where an inserted block stands**: directly after the first block with the key of the nearest of
the fresh blocks before it that the result has, and if it has none, after everything that was
there.  The fresh blocks before it are given from the nearest on. -/
def Placed (parts : List Part) (before : List Block) (nb : Block) : Prop :=
  match before.find? fun b => b.key ∈ partKeys parts with
  | some a => ∃ ps c qs, parts = ps ++ c :: .gap 2 :: .fresh nb :: qs ∧
      c.segment.hasKey a.key = true ∧ ∀ p ∈ ps, p.segment.hasKey a.key = false
  | none => ∃ ps qs, parts = ps ++ .fresh nb :: qs ∧ ∀ q ∈ qs, q.old? = none

/-- **What a merge does.** -/
structure Merged (existing : List Segment) (prevKeys : List Bytes) (fresh : List Block)
    (parts : List Part) (conflicts : List Conflict) : Prop where
  /-- The parts that were there are the existing segments, as they are settled. -/
  settled : ∃ old, List.Forall₂ (Settles fresh) existing old ∧
    parts.filterMap Part.old? = old.reduceOption
  /-- The conflicts are those of the existing segments. -/
  reported : ∃ reports, List.Forall₂ (Reports fresh) existing reports ∧
    conflicts = reports.reduceOption
  /-- Each block that is to be inserted is, once, and no other. -/
  inserted : (parts.filterMap Part.fresh?).Perm
    (fresh.filter (isInserted (parts.filterMap Part.old?) prevKeys))
  placed : ∀ before nb after, fresh = before ++ nb :: after →
    isInserted (parts.filterMap Part.old?) prevKeys nb = true → Placed parts before.reverse nb

/-! ### What becomes of the existing segments -/

theorem settles_kept (fresh : List Block) (s : Segment) : Settles fresh s (kept fresh s) := by
  cases s with
  | text t => exact .text t
  | block b =>
      rw [kept, keptBlock]
      cases hnb : freshByKey fresh b.key with
      | none =>
          have hkey := freshByKey_eq_none.1 hnb
          cases hedited : b.edited with
          | true => exact .detached hkey hedited
          | false => exact .dropped hkey hedited
      | some nb =>
          obtain ⟨hmem, hkey⟩ := freshByKey_eq_some hnb
          cases hedited : b.edited with
          | true => exact .kept hmem hkey hedited
          | false => exact .refreshed hmem hkey hedited

theorem reports_conflictOf (r : Render) (s : Segment) :
    Reports r.blocks s (conflictOf r.blocks s) := by
  cases s with
  | text t => exact .text t
  | block b =>
      rw [conflictOf]
      cases hnb : freshByKey r.blocks b.key with
      | none =>
          exact .same fun nb hmem hkey =>
            absurd (List.mem_map.2 ⟨nb, hmem, hkey⟩) (freshByKey_eq_none.1 hnb)
      | some nb =>
          obtain ⟨hmem, hkey⟩ := freshByKey_eq_some hnb
          rw [Option.bind_some]
          split
          · next hconflict => exact .conflict hmem hkey hconflict.1 hconflict.2
          · next hnone =>
              cases hedited : b.edited with
              | false => exact .unedited hedited
              | true =>
                  refine .same fun nb' hmem' hkey' => ?_
                  have hnb' := Render.freshByKey_of_mem hmem'
                  rw [hkey', hnb] at hnb'
                  obtain rfl := Option.some.inj hnb'
                  by_contra hhash
                  exact hnone ⟨hedited, hhash⟩

/-! ### Keys and positions -/

theorem mem_blockKeys_iff {segs : List Segment} {k : Bytes} :
    k ∈ blockKeys (blocksOf segs) ↔ ∃ s ∈ segs, s.hasKey k = true := by
  constructor
  · intro h
    obtain ⟨b, hb, rfl⟩ := List.mem_map.1 h
    obtain ⟨s, hs, hblock⟩ := List.mem_filterMap.1 hb
    cases s with
    | text t => cases hblock
    | block c =>
        obtain rfl := Option.some.inj hblock
        exact ⟨_, hs, beq_self_eq_true _⟩
  · rintro ⟨s, hs, hkey⟩
    cases s with
    | text t => cases hkey
    | block c => exact List.mem_map.2 ⟨c, List.mem_filterMap.2 ⟨_, hs, rfl⟩, beq_iff_eq.1 hkey⟩

theorem mem_partKeys {parts : List Part} {k : Bytes} :
    k ∈ partKeys parts ↔ ∃ p ∈ parts, p.segment.hasKey k = true := by
  rw [partKeys, mem_blockKeys_iff]
  simp only [List.mem_map, exists_exists_and_eq_and]

theorem hasKey_inj {s : Segment} {k k' : Bytes} (h : s.hasKey k = true) (h' : s.hasKey k' = true) :
    k = k' := by
  cases s with
  | text t => cases h
  | block b => exact (beq_iff_eq.1 h).symm.trans (beq_iff_eq.1 h')

/-- The first block with a key. -/
theorem blockIndex_parts {parts : List Part} {k : Bytes} (h : k ∈ partKeys parts) :
    ∃ ps c qs, parts = ps ++ c :: qs ∧ c.segment.hasKey k = true ∧
      (∀ p ∈ ps, p.segment.hasKey k = false) ∧
        blockIndex (parts.map Part.segment) k = some ps.length := by
  obtain ⟨p, hp, hkey⟩ := mem_partKeys.1 h
  have hfind : (parts.find? fun p => p.segment.hasKey k).isSome = true :=
    List.find?_isSome.2 ⟨p, hp, hkey⟩
  obtain ⟨c, hc⟩ := Option.isSome_iff_exists.1 hfind
  obtain ⟨hckey, ps, qs, rfl, hps⟩ := List.find?_eq_some_iff_append.1 hc
  have hfirst : ∀ p ∈ ps, p.segment.hasKey k = false := fun p hp => by simpa using hps p hp
  refine ⟨ps, c, qs, rfl, hckey, hfirst, ?_⟩
  rw [blockIndex, List.map_append, List.map_cons, List.findIdx?_append,
    List.findIdx?_eq_none_iff.2 (by simpa using hfirst), Option.none_or, List.findIdx?_cons, hckey]
  simp

theorem blockIndex_eq_none {segs : List Segment} {k : Bytes}
    (h : k ∉ blockKeys (blocksOf segs)) : blockIndex segs k = none := by
  rw [blockIndex, List.findIdx?_eq_none_iff]
  intro s hs
  by_contra hkey
  exact h (mem_blockKeys_iff.2 ⟨s, hs, by simpa using hkey⟩)

/-- The insertion point is after the first block with the key of the nearest fresh block. -/
theorem insertionPoint_parts (parts : List Part) (before : List Block) :
    (before.find? (fun b => b.key ∈ partKeys parts) = none ∧
      insertionPoint (parts.map Part.segment) before = parts.length) ∨
    ∃ a ps c qs, before.find? (fun b => b.key ∈ partKeys parts) = some a ∧
      parts = ps ++ c :: qs ∧ c.segment.hasKey a.key = true ∧
      (∀ p ∈ ps, p.segment.hasKey a.key = false) ∧
        insertionPoint (parts.map Part.segment) before = ps.length + 1 := by
  rw [insertionPoint]
  induction before with
  | nil => exact Or.inl ⟨rfl, List.length_map _⟩
  | cons b before ih =>
      by_cases hb : b.key ∈ partKeys parts
      · obtain ⟨ps, c, qs, hparts, hkey, hfirst, hindex⟩ := blockIndex_parts hb
        refine Or.inr ⟨b, ps, c, qs, ?_, hparts, hkey, hfirst, ?_⟩
        · rw [List.find?_cons_of_pos (by simpa using hb)]
        · rw [List.findSome?_cons_of_isSome (by rw [hindex]; rfl), hindex]
      · rw [List.find?_cons_of_neg (by simpa using hb), List.findSome?_cons_of_isNone]
        · exact ih
        · rw [blockIndex_eq_none hb]
          rfl


/-! ### A later insertion -/

theorem partKeys_insertAt {parts ins : List Part} {i : ℕ} {k : Bytes} :
    k ∈ partKeys (insertAt parts i ins) ↔ k ∈ partKeys parts ∨ k ∈ partKeys ins := by
  simp only [mem_partKeys, mem_insertAt]
  constructor
  · rintro ⟨p, hp | hp, hkey⟩
    · exact Or.inl ⟨p, hp, hkey⟩
    · exact Or.inr ⟨p, hp, hkey⟩
  · rintro (⟨p, hp, hkey⟩ | ⟨p, hp, hkey⟩)
    · exact ⟨p, Or.inl hp, hkey⟩
    · exact ⟨p, Or.inr hp, hkey⟩

/-- The position is at the end, or directly after a block that is none of those `before`. -/
def AfterOther (parts : List Part) (before : List Block) (i : ℕ) : Prop :=
  i = parts.length ∨ ∃ ps c qs k, parts = ps ++ c :: qs ∧ i = ps.length + 1 ∧
    c.segment.hasKey k = true ∧ ∀ b ∈ before, b.key ≠ k

/-- **A later insertion leaves a block where it stands**: it is not between the block and the one
before it. -/
theorem Placed.insertAt {parts ins : List Part} {before : List Block} {nb : Block} {i : ℕ}
    (h : Placed parts before nb) (hi : AfterOther parts before i)
    (hkeys : ∀ b ∈ before, b.key ∉ partKeys ins) (hold : ∀ p ∈ ins, p.old? = none) :
    Placed (Lib.insertAt parts i ins) before nb := by
  have hfind : before.find? (fun b => b.key ∈ partKeys (Lib.insertAt parts i ins)) =
      before.find? (fun b => b.key ∈ partKeys parts) := by
    refine List.find?_congr fun b hb => ?_
    rw [decide_eq_decide, partKeys_insertAt, or_iff_left (hkeys b hb)]
  rw [Placed] at h ⊢
  rw [hfind]
  split
  · next a ha =>
      rw [ha] at h
      obtain ⟨ps, c, qs, hparts, hkey, hfirst⟩ := h
      have hmem : a ∈ before := List.mem_of_find?_eq_some ha
      -- the position is not between the two
      have hout : i ≤ ps.length ∨ ps.length + 3 ≤ i := by
        rcases hi with hi | ⟨ps', c', qs', k, hparts', hi, hkey', hother⟩
        · right
          rw [hi, hparts, List.length_append]
          simp only [List.length_cons]
          omega
        · have hget : parts[ps'.length]? = some c' := by
            rw [hparts', List.getElem?_append_right le_rfl, Nat.sub_self]
            rfl
          have hne : ps'.length ≠ ps.length := by
            intro heq
            rw [heq, hparts, List.getElem?_append_right le_rfl, Nat.sub_self] at hget
            obtain rfl := Option.some.inj hget
            exact hother a hmem (hasKey_inj hkey hkey')
          have hne' : ps'.length ≠ ps.length + 1 := by
            intro heq
            rw [heq, hparts, List.getElem?_append_right (Nat.le_add_right _ 1),
              Nat.add_sub_cancel_left] at hget
            obtain rfl := Option.some.inj hget
            cases hkey'
          omega
      rcases hout with hle | hge
      · refine ⟨Lib.insertAt ps i ins, c, qs, ?_, hkey, ?_⟩
        · rw [hparts, insertAt_append_of_le hle]
        · intro p hp
          rcases mem_insertAt.1 hp with hp | hp
          · exact hfirst p hp
          · by_contra hkey'
            exact hkeys a hmem (mem_partKeys.2 ⟨p, hp, by simpa using hkey'⟩)
      · refine ⟨ps, c, Lib.insertAt qs (i - (ps.length + 3)) ins, ?_, hkey, hfirst⟩
        have hsplit : parts = (ps ++ [c, .gap 2, .fresh nb]) ++ qs := by
          rw [hparts, List.append_assoc]
          rfl
        rw [hsplit, insertAt_append_of_ge (by simpa using hge), List.append_assoc,
          List.length_append]
        rfl
  · next ha =>
      rw [ha] at h
      obtain ⟨ps, qs, hparts, hqs⟩ := h
      rcases Nat.lt_or_ge ps.length i with hlt | hge
      · refine ⟨ps, Lib.insertAt qs (i - (ps.length + 1)) ins, ?_, ?_⟩
        · have hsplit : parts = (ps ++ [.fresh nb]) ++ qs := by
            rw [hparts, List.append_assoc]
            rfl
          rw [hsplit, insertAt_append_of_ge (by simp; omega), List.append_assoc,
            List.length_append]
          rfl
        · intro q hq
          rcases mem_insertAt.1 hq with hq | hq
          · exact hqs q hq
          · exact hold q hq
      · exact ⟨Lib.insertAt ps i ins, qs, by rw [hparts, insertAt_append_of_le hge], hqs⟩

/-! ### The insertion loop -/

/-- The state of the insertion loop after the fresh blocks `done`. -/
structure Progress (old : List Segment) (prevKeys : List Bytes) (done : List Block)
    (st : MergeState) (parts : List Part) : Prop where
  out : st.out = parts.map Part.segment
  marked : st.Marked
  settled : parts.filterMap Part.old? = old
  inserted : (parts.filterMap Part.fresh?).Perm
    (done.filter fun nb => nb.key ∉ blockKeys (blocksOf old) && nb.key ∉ prevKeys)
  placed : ∀ before nb after, done = before ++ nb :: after →
    nb.key ∉ blockKeys (blocksOf old) → nb.key ∉ prevKeys → Placed parts before.reverse nb

variable {old : List Segment} {prevKeys : List Bytes} {done : List Block} {st : MergeState}
  {parts : List Part}

/-- The keys are those of the old blocks and of the inserted ones. -/
theorem partKeys_eq (k : Bytes) : k ∈ partKeys parts ↔
    k ∈ blockKeys (blocksOf (parts.filterMap Part.old?)) ∨
      k ∈ blockKeys (parts.filterMap Part.fresh?) := by
  rw [mem_partKeys, mem_blockKeys_iff]
  constructor
  · rintro ⟨p, hp, hkey⟩
    cases p with
    | old s => exact Or.inl ⟨s, List.mem_filterMap.2 ⟨_, hp, rfl⟩, hkey⟩
    | gap t => cases hkey
    | fresh b =>
        exact Or.inr (List.mem_map.2 ⟨b, List.mem_filterMap.2 ⟨_, hp, rfl⟩, beq_iff_eq.1 hkey⟩)
  · rintro (⟨s, hs, hkey⟩ | hk)
    · obtain ⟨p, hp, hold⟩ := List.mem_filterMap.1 hs
      cases p with
      | old s' =>
          obtain rfl := Option.some.inj hold
          exact ⟨_, hp, hkey⟩
      | gap | fresh => cases hold
    · obtain ⟨b, hb, rfl⟩ := List.mem_map.1 hk
      obtain ⟨p, hp, hfresh⟩ := List.mem_filterMap.1 hb
      cases p with
      | fresh b' =>
          obtain rfl := Option.some.inj hfresh
          exact ⟨_, hp, beq_self_eq_true _⟩
      | old | gap => cases hfresh

theorem Progress.mem_present (h : Progress old prevKeys done st parts) {nb : Block}
    (hnew : nb.key ∉ blockKeys done) :
    nb.key ∈ st.present ↔ nb.key ∈ blockKeys (blocksOf old) := by
  rw [h.marked, h.out, ← partKeys, partKeys_eq, h.settled, or_iff_left]
  intro hk
  obtain ⟨b, hb, hkey⟩ := List.mem_map.1 hk
  exact hnew (hkey ▸ List.mem_map_of_mem (List.mem_filter.1 (h.inserted.mem_iff.1 hb)).1)

/-- What is inserted: the block, between line breaks. -/
def newParts (pre post : List ℕ) (nb : Block) : List Part :=
  pre.map Part.gap ++ .fresh nb :: post.map Part.gap

theorem newParts_old (pre post : List ℕ) (nb : Block) :
    ∀ p ∈ newParts pre post nb, p.old? = none := by
  intro p hp
  rcases List.mem_append.1 hp with hp | hp
  · obtain ⟨t, -, rfl⟩ := List.mem_map.1 hp
    rfl
  · rcases List.mem_cons.1 hp with rfl | hp
    · rfl
    · obtain ⟨t, -, rfl⟩ := List.mem_map.1 hp
      rfl

theorem newParts_fresh (pre post : List ℕ) (nb : Block) :
    (newParts pre post nb).filterMap Part.fresh? = [nb] := by
  have hgaps : ∀ ts : List ℕ, (ts.map Part.gap).filterMap Part.fresh? = [] := by
    intro ts
    rw [List.filterMap_map]
    exact List.filterMap_eq_nil_iff.2 fun t _ => rfl
  rw [newParts, List.filterMap_append, hgaps, List.filterMap_cons, hgaps]
  rfl

theorem mem_partKeys_newParts {pre post : List ℕ} {nb : Block} {k : Bytes} :
    k ∈ partKeys (newParts pre post nb) ↔ k = nb.key := by
  have hold : (newParts pre post nb).filterMap Part.old? = [] :=
    List.filterMap_eq_nil_iff.2 (newParts_old pre post nb)
  rw [partKeys_eq, hold, newParts_fresh]
  simp [blockKeys]

/-- What the insertion looks like, and where the block then stands. -/
theorem insertion_parts (parts : List Part) {before : List Block} {nb : Block}
    (hne : ∀ b ∈ before, b.key ≠ nb.key) :
    ∃ pre post,
      insertion (parts.map Part.segment) (insertionPoint (parts.map Part.segment) before) nb =
        (newParts pre post nb).map Part.segment ∧
      Placed (insertAt parts (insertionPoint (parts.map Part.segment) before)
        (newParts pre post nb)) before nb := by
  have hfind : ∀ (i : ℕ) (pre post : List ℕ),
      before.find? (fun b => b.key ∈ partKeys (insertAt parts i (newParts pre post nb))) =
        before.find? (fun b => b.key ∈ partKeys parts) := by
    intro i pre post
    refine List.find?_congr fun b hb => ?_
    rw [decide_eq_decide, partKeys_insertAt, mem_partKeys_newParts, or_iff_left (hne b hb)]
  rcases insertionPoint_parts parts before with ⟨hnone, hat⟩ |
    ⟨a, ps, c, qs, ha, hparts, hkey, hfirst, hat⟩
  · -- no fresh block before it is there: at the end
    have hplaced : ∀ pre post,
        Placed (insertAt parts parts.length (newParts pre post nb)) before nb := by
      intro pre post
      rw [Placed, hfind, hnone]
      refine ⟨parts ++ pre.map Part.gap, post.map Part.gap, ?_, ?_⟩
      · rw [insertAt_length, newParts, List.append_assoc]
      · intro q hq
        obtain ⟨t, -, rfl⟩ := List.mem_map.1 hq
        rfl
    rw [hat, insertion, List.length_map]
    split
    · split
      · exact ⟨[], [1], rfl, hplaced _ _⟩
      · exact ⟨[1], [1], rfl, hplaced _ _⟩
    · exact ⟨[2], [], rfl, hplaced _ _⟩
  · -- directly after a block, which is no text with a newline at its end
    have hnot : ¬(ps.length + 1 = (parts.map Part.segment).length ∧
        (parts.map Part.segment = [] ∨ endsWithNewline (parts.map Part.segment) = true)) := by
      rintro ⟨hlength, hend⟩
      rw [hparts, List.length_map, List.length_append, List.length_cons] at hlength
      obtain rfl : qs = [] := List.length_eq_zero_iff.1 (by omega)
      rcases hend with hnil | hend
      · rw [hparts] at hnil
        simp at hnil
      · rw [endsWithNewline, hparts, List.map_append, List.map_singleton, List.getLast?_concat] at hend
        cases hc : c.segment with
        | text t =>
            rw [hc] at hkey
            cases hkey
        | block b =>
            rw [hc] at hend
            cases hend
    refine ⟨[2], [], ?_, ?_⟩
    · rw [hat, insertion, if_neg hnot]
      rfl
    · rw [Placed, hfind, ha, hat]
      refine ⟨ps, c, qs, ?_, hkey, hfirst⟩
      have hsplit : parts = (ps ++ [c]) ++ qs := by
        rw [hparts, List.append_assoc]
        rfl
      have hlength : ps.length + 1 = (ps ++ [c]).length := by
        rw [List.length_append, List.length_singleton]
      rw [hsplit, hlength, insertAt_append, List.append_assoc]
      rfl

/-- The insertion point is directly after a block of a fresh block that is not before an inserted
one. -/
theorem afterOther_insertionPoint {before after : List Block} {nb : Block}
    (hdistinct : (blockKeys (before ++ nb :: after)).Nodup) (hnb : nb.key ∈ partKeys parts) :
    AfterOther parts before.reverse
      (insertionPoint (parts.map Part.segment) (before ++ nb :: after).reverse) := by
  rcases insertionPoint_parts parts (before ++ nb :: after).reverse with ⟨-, hat⟩ |
    ⟨a, ps, c, qs, ha, hparts, hkey, -, hat⟩
  · exact Or.inl hat
  · refine Or.inr ⟨ps, c, qs, a.key, hparts, hat, hkey, ?_⟩
    -- the nearest one is not before the inserted one
    have hmem : a ∈ nb :: after := by
      rw [List.reverse_append, List.reverse_cons, List.append_assoc, List.find?_append] at ha
      cases hafter : after.reverse.find? (fun b => b.key ∈ partKeys parts) with
      | some a' =>
          rw [hafter, Option.some_or] at ha
          obtain rfl := Option.some.inj ha
          exact List.mem_cons_of_mem _ (List.mem_reverse.1 (List.mem_of_find?_eq_some hafter))
      | none =>
          rw [hafter, Option.none_or, List.singleton_append,
            List.find?_cons_of_pos (by simpa using hnb)] at ha
          obtain rfl := Option.some.inj ha
          exact List.mem_cons_self
    intro b hb hsame
    rw [blockKeys, List.map_append, List.nodup_append] at hdistinct
    exact hdistinct.2.2 _ (List.mem_map_of_mem (List.mem_reverse.1 hb)) _
      (List.mem_map_of_mem hmem) hsame

/-- An inserted block is there. -/
theorem Progress.mem_of_inserted (h : Progress old prevKeys done st parts) {nb : Block}
    (hmem : nb ∈ done) (hold : nb.key ∉ blockKeys (blocksOf old)) (hprev : nb.key ∉ prevKeys) :
    nb.key ∈ partKeys parts := by
  refine (partKeys_eq _).2 (Or.inr (List.mem_map_of_mem (h.inserted.mem_iff.2 ?_)))
  exact List.mem_filter.2 ⟨hmem, by simp [hold, hprev]⟩

/-- Either the last of the blocks, or one before it. -/
theorem append_singleton_split {done before after : List Block} {nb nb' : Block}
    (h : done ++ [nb'] = before ++ nb :: after) :
    (done = before ∧ nb' = nb ∧ after = []) ∨ ∃ after', after = after' ++ [nb'] ∧
      done = before ++ nb :: after' := by
  rcases List.eq_nil_or_concat after with rfl | ⟨after', last, rfl⟩
  · obtain ⟨rfl, hlast⟩ := List.append_inj' h rfl
    exact Or.inl ⟨rfl, List.singleton_inj.1 hlast, rfl⟩
  · rw [List.concat_eq_append] at h ⊢
    rw [← List.cons_append, ← List.append_assoc] at h
    obtain ⟨hdone, hlast⟩ := List.append_inj' h rfl
    exact Or.inr ⟨after', by rw [List.singleton_inj.1 hlast], hdone⟩

/-- **One round of the insertion loop.** -/
theorem Progress.insertFresh (h : Progress old prevKeys done st parts) {nb : Block}
    (hdistinct : (blockKeys (done ++ [nb])).Nodup) :
    ∃ parts', Progress old prevKeys (done ++ [nb])
      (Doc.insertFresh prevKeys done.reverse st nb) parts' := by
  rw [blockKeys, List.map_append, List.map_singleton, List.nodup_append] at hdistinct
  obtain ⟨hdone, -, hdisjoint⟩ := hdistinct
  have hne : ∀ b ∈ done, b.key ≠ nb.key := fun b hb =>
    hdisjoint _ (List.mem_map_of_mem hb) _ (List.mem_singleton_self _)
  have hnew : nb.key ∉ blockKeys done := by
    intro hk
    obtain ⟨b, hb, hkey⟩ := List.mem_map.1 hk
    exact hne b hb hkey
  rw [Doc.insertFresh]
  split
  · next hskip =>
      -- the block is there already, or was in the previous render
      have hnot : ¬(nb.key ∉ blockKeys (blocksOf old) ∧ nb.key ∉ prevKeys) := by
        rintro ⟨hold, hprev⟩
        exact hskip.elim (fun hk => hold ((h.mem_present hnew).1 hk)) hprev
      refine ⟨parts, h.out, h.marked, h.settled, ?_, ?_⟩
      · rw [List.filter_append, List.filter_cons_of_neg, List.filter_nil, List.append_nil]
        · exact h.inserted
        · rw [Bool.and_eq_true, decide_eq_true_eq, decide_eq_true_eq]
          exact hnot
      · intro before nb' after hsplit hold hprev
        rcases append_singleton_split hsplit with ⟨-, rfl, -⟩ | ⟨after', -, rfl⟩
        · exact absurd ⟨hold, hprev⟩ hnot
        · exact h.placed before nb' after' rfl hold hprev
  · next hinsert =>
      obtain ⟨hold, hprev⟩ := not_or.1 hinsert
      rw [h.mem_present hnew] at hold
      have hne' : ∀ b ∈ done.reverse, b.key ≠ nb.key := fun b hb => hne b (List.mem_reverse.1 hb)
      obtain ⟨pre, post, hins, hplaced⟩ := insertion_parts parts hne'
      refine ⟨insertAt parts (insertionPoint (parts.map Part.segment) done.reverse)
        (newParts pre post nb), ?_, ?_, ?_, ?_, ?_⟩
      · dsimp only
        rw [h.out, hins, map_insertAt, insertAt]
      · intro k
        dsimp only
        rw [h.out, hins, ← insertAt, ← map_insertAt, ← partKeys, partKeys_insertAt,
          mem_partKeys_newParts, List.mem_cons, h.marked, h.out, ← partKeys, or_comm]
      · rw [filterMap_insertAt, h.settled]
        exact List.filterMap_eq_nil_iff.2 (newParts_old pre post nb)
      · rw [List.filter_append, List.filter_singleton]
        refine (filterMap_insertAt_perm _ _ _ _).trans ?_
        rw [newParts_fresh]
        simpa [hold, hprev] using h.inserted.append_right [nb]
      · intro before nb' after hsplit hold' hprev'
        rcases append_singleton_split hsplit with ⟨rfl, rfl, -⟩ | ⟨after', -, rfl⟩
        · exact hplaced
        · refine (h.placed before nb' after' rfl hold' hprev').insertAt ?_ ?_ ?_
          · exact afterOther_insertionPoint hdone
              (h.mem_of_inserted (List.mem_append_right _ List.mem_cons_self) hold' hprev')
          · intro b hb hk
            exact hne b (List.mem_append_left _ (List.mem_reverse.1 hb))
              (mem_partKeys_newParts.1 hk)
          · exact newParts_old pre post nb

/-- **The insertion loop.** -/
theorem Progress.insertAll (h : Progress old prevKeys done st parts) {rest : List Block}
    (hdistinct : (blockKeys (done ++ rest)).Nodup) :
    ∃ parts', Progress old prevKeys (done ++ rest)
      (Doc.insertAll prevKeys done.reverse rest st) parts' := by
  induction rest generalizing done st parts with
  | nil =>
      rw [List.append_nil]
      exact ⟨parts, h⟩
  | cons nb rest ih =>
      have hsplit : done ++ nb :: rest = (done ++ [nb]) ++ rest := by
        rw [List.append_assoc, List.singleton_append]
      rw [hsplit] at hdistinct ⊢
      have hfirst : (blockKeys (done ++ [nb])).Nodup := by
        rw [blockKeys_append] at hdistinct
        exact hdistinct.of_append_left
      obtain ⟨parts', h'⟩ := h.insertFresh hfirst
      obtain ⟨parts'', h''⟩ := ih h' hdistinct
      rw [List.reverse_append] at h''
      exact ⟨parts'', h''⟩

/-- **The result of a merge**: its parts are the existing segments as they are settled, the fresh
blocks that are to be inserted, each where it is to stand, and line breaks. -/
theorem merge_places (existing : List Segment) (prevKeys : List Bytes) (r : Render) :
    ∃ parts : List Part, (merge existing prevKeys r.blocks).1 = parts.map Part.segment ∧
      Merged existing prevKeys r.blocks parts (merge existing prevKeys r.blocks).2 := by
  have hstart : Progress (existing.filterMap (kept r.blocks)) prevKeys []
      (mergeExisting existing r.blocks) ((existing.filterMap (kept r.blocks)).map Part.old) := by
    refine ⟨?_, mergeExisting_marked existing r.blocks, ?_, ?_, ?_⟩
    · rw [mergeExisting_out, List.map_map]
      exact (List.map_id _).symm
    · rw [List.filterMap_map]
      exact List.filterMap_some
    · rw [List.filterMap_map, List.filter_nil]
      exact List.Perm.of_eq (List.filterMap_eq_nil_iff.2 fun s _ => rfl)
    · intro before nb after h
      simp at h
  obtain ⟨parts, h⟩ := hstart.insertAll r.distinct
  refine ⟨parts, h.out, ⟨existing.map (kept r.blocks), ?_, ?_⟩,
    ⟨existing.map (conflictOf r.blocks), ?_, ?_⟩, ?_, ?_⟩
  · exact List.forall₂_map_right_iff.2 (List.forall₂_same.2 fun s _ => settles_kept r.blocks s)
  · rw [h.settled, List.reduceOption, List.filterMap_map]
    rfl
  · exact List.forall₂_map_right_iff.2 (List.forall₂_same.2 fun s _ => reports_conflictOf r s)
  · rw [merge_conflicts, List.reduceOption, List.filterMap_map]
    rfl
  · rw [h.settled]
    exact h.inserted
  · intro before nb after hsplit hins
    rw [isInserted, h.settled, Bool.and_eq_true, decide_eq_true_eq, decide_eq_true_eq] at hins
    exact h.placed before nb after hsplit hins.1 hins.2

end WiseLabz.Doc
