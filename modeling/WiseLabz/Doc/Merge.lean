/-
**Merging a fresh render into a doc.**

The program's own code for folding freshly generated blocks into the segments of a doc, and the
facts about its result that do not depend on how the segments are printed: what becomes of each
segment, which blocks are inserted and where, and which keys the result has.

Main definitions:

* `Doc.merge` — **the merge**, with its pass over the existing segments and its insertion loop;
* `Doc.kept` — what becomes of an existing segment;
* `Doc.Inserted` — the ways a fresh block is inserted;
* `Doc.Render` — a list of fresh blocks under distinct keys.

Main results:

* `Doc.mergeExisting_out`, `Doc.mergeExisting_conflicts` — the pass over the existing segments;
* `Doc.merge_induction` — what holds after that pass and survives each insertion holds of the result;
* `Doc.mem_blockKeys_merge` — **the keys of the result**.
-/

import WiseLabz.Doc.Blocks
import Mathlib.Data.List.Nodup

set_option relaxedAutoImplicit false
set_option autoImplicit false

namespace WiseLabz.Doc

open Lib

/-! ### The merge -/

/-- A generated block a human edited whose upstream also changed. -/
structure Conflict where
  /-- The key of the block. -/
  key : Bytes
  /-- The block's current body. -/
  human : Bytes
  /-- The freshly generated block. -/
  generated : Block
  deriving DecidableEq, Repr

/-- `freshByKey[key]`: of several blocks with the key the last one. -/
def freshByKey (fresh : List Block) (key : Bytes) : Option Block :=
  fresh.reverse.find? fun b => b.key == key

/-- The variables of the merge: the segments written so far, the keys marked as present and the
conflicts found. -/
structure MergeState where
  out : List Segment
  present : List Bytes
  conflicts : List Conflict

/-- One round of the pass over the existing segments. -/
def mergeSegment (fresh : List Block) (st : MergeState) : Segment → MergeState
  | .text t => { st with out := st.out ++ [.text t] }
  | .block cur =>
      match freshByKey fresh cur.key with
      | none =>
          if cur.edited then
            -- detach the human edit
            { st with out := st.out ++ [.text cur.body] }
          else
            -- gone upstream, nobody touched it
            st
      | some nb =>
          if cur.edited then
            { out := st.out ++ [.block cur]
              present := cur.key :: st.present
              conflicts := if nb.hash ≠ cur.hash then st.conflicts ++ [⟨cur.key, cur.body, nb⟩]
                else st.conflicts }
          else { st with out := st.out ++ [.block nb], present := nb.key :: st.present }

/-- The pass over the existing segments. -/
def mergeExisting (existing : List Segment) (fresh : List Block) : MergeState :=
  existing.foldl (mergeSegment fresh) ⟨[], [], []⟩

/-- The segment is the block with the key. -/
def Segment.hasKey (key : Bytes) : Segment → Bool
  | .text _ => false
  | .block b => b.key == key

/-- The position of the first block with the key. -/
def blockIndex (segs : List Segment) (key : Bytes) : Option ℕ := segs.findIdx? (Segment.hasKey key)

/-- The last segment is a text that ends with a newline. -/
def endsWithNewline (segs : List Segment) : Bool :=
  match segs.getLast? with
  | some (.text t) => t.getLast? == some newline
  | _ => false

/-- Where a fresh block goes: after the nearest of the fresh blocks `before` it, taken backwards,
that the segments have; else at the end. -/
def insertionPoint (out : List Segment) (before : List Block) : ℕ :=
  match before.findSome? fun b => blockIndex out b.key with
  | some idx => idx + 1
  | none => out.length

/-- The inserted segments, with the blank lines that set the block apart. -/
def insertion (out : List Segment) (at_ : ℕ) (nb : Block) : List Segment :=
  if at_ = out.length ∧ (out = [] ∨ endsWithNewline out = true) then
    (if out = [] then [] else [.text [newline]]) ++ [.block nb, .text [newline]]
  else [.text [newline, newline], .block nb]

/-- One round of the insertion loop. -/
def insertFresh (prevKeys : List Bytes) (before : List Block) (st : MergeState) (nb : Block) :
    MergeState :=
  if nb.key ∈ st.present ∨ nb.key ∈ prevKeys then st
  else
    let at_ := insertionPoint st.out before
    { st with
      out := st.out.take at_ ++ (insertion st.out at_ nb ++ st.out.drop at_)
      present := nb.key :: st.present }

/-- The insertion loop, the fresh blocks already seen being kept in reverse order. -/
def insertAll (prevKeys : List Bytes) : List Block → List Block → MergeState → MergeState
  | _, [], st => st
  | before, nb :: fresh, st =>
      insertAll prevKeys (nb :: before) fresh (insertFresh prevKeys before st nb)

/-- **The merge** of a fresh render into a doc's existing segments. -/
def merge (existing : List Segment) (prevKeys : List Bytes) (fresh : List Block) :
    List Segment × List Conflict :=
  let st := insertAll prevKeys [] fresh (mergeExisting existing fresh)
  (st.out, st.conflicts)

/-- A render: freshly generated blocks under pairwise distinct keys. -/
structure Render where
  /-- The blocks in order. -/
  blocks : List Block
  generated : ∀ b ∈ blocks, ∃ key body, b = newBlock key body
  distinct : (blockKeys blocks).Nodup

/-- The keys of a render. -/
def Render.keys (r : Render) : List Bytes := blockKeys r.blocks

/-! ### Fresh blocks by key -/

theorem freshByKey_eq_some {fresh : List Block} {key : Bytes} {nb : Block}
    (h : freshByKey fresh key = some nb) : nb ∈ fresh ∧ nb.key = key :=
  ⟨List.mem_reverse.1 (List.mem_of_find?_eq_some h), by simpa using List.find?_some h⟩

theorem freshByKey_eq_none {fresh : List Block} {key : Bytes} :
    freshByKey fresh key = none ↔ key ∉ blockKeys fresh := by
  simp only [freshByKey, List.find?_eq_none, List.mem_reverse, beq_iff_eq, blockKeys, List.mem_map,
    not_exists, not_and]

/-- Under distinct keys each fresh block is the one of its key. -/
theorem Render.freshByKey_of_mem {r : Render} {nb : Block} (h : nb ∈ r.blocks) :
    freshByKey r.blocks nb.key = some nb := by
  cases hf : freshByKey r.blocks nb.key with
  | none => exact (freshByKey_eq_none.1 hf (List.mem_map.2 ⟨nb, h, rfl⟩)).elim
  | some nb' =>
      obtain ⟨hm, hk⟩ := freshByKey_eq_some hf
      rw [List.inj_on_of_nodup_map r.distinct hm h hk]

theorem Render.edited_of_mem {r : Render} {nb : Block} (h : nb ∈ r.blocks) :
    nb.edited = false := by
  obtain ⟨key, body, rfl⟩ := r.generated nb h
  simp

theorem Render.hashOk_of_mem {r : Render} {nb : Block} (h : nb ∈ r.blocks) : HashOk nb.hash := by
  obtain ⟨key, body, rfl⟩ := r.generated nb h
  exact hashOk_newBlock key body

/-! ### The pass over the existing segments -/

/-- What becomes of a block: refreshed or kept, detached, or dropped. -/
def keptBlock (fresh : List Block) (b : Block) : Option Segment :=
  match freshByKey fresh b.key with
  | none => if b.edited then some (.text b.body) else none
  | some nb => some (.block (if b.edited then b else nb))

/-- What becomes of an existing segment. -/
def kept (fresh : List Block) : Segment → Option Segment
  | .text t => some (.text t)
  | .block b => keptBlock fresh b

/-- The conflict an existing segment gives rise to. -/
def conflictOf (fresh : List Block) : Segment → Option Conflict
  | .text _ => none
  | .block b =>
      (freshByKey fresh b.key).bind fun nb =>
        if b.edited ∧ nb.hash ≠ b.hash then some ⟨b.key, b.body, nb⟩ else none

/-- The keys marked as present are those of the blocks written. -/
def MergeState.Marked (st : MergeState) : Prop :=
  ∀ k, k ∈ st.present ↔ k ∈ blockKeys (blocksOf st.out)

theorem blocksOf_append (segs segs' : List Segment) :
    blocksOf (segs ++ segs') = blocksOf segs ++ blocksOf segs' := List.filterMap_append

theorem blockKeys_append (bs bs' : List Block) :
    blockKeys (bs ++ bs') = blockKeys bs ++ blockKeys bs' := List.map_append

@[simp] theorem blocksOf_text (t : Bytes) (segs : List Segment) :
    blocksOf (.text t :: segs) = blocksOf segs := rfl

@[simp] theorem blocksOf_block (b : Block) (segs : List Segment) :
    blocksOf (.block b :: segs) = b :: blocksOf segs := rfl

@[simp] theorem blocksOf_nil : blocksOf [] = [] := rfl

/-- What one round of the pass does. -/
theorem mergeSegment_spec (fresh : List Block) (st : MergeState) (s : Segment) :
    (mergeSegment fresh st s).out = st.out ++ (kept fresh s).toList ∧
      (mergeSegment fresh st s).conflicts = st.conflicts ++ (conflictOf fresh s).toList ∧
      (st.Marked → (mergeSegment fresh st s).Marked) := by
  cases s with
  | text t =>
      refine ⟨rfl, by simp [mergeSegment, conflictOf], fun h k => ?_⟩
      simpa [mergeSegment, blocksOf_append] using h k
  | block cur =>
      cases hf : freshByKey fresh cur.key with
      | none =>
          cases he : cur.edited with
          | false => simp [mergeSegment, kept, keptBlock, conflictOf, hf, he]
          | true =>
              refine ⟨by simp [mergeSegment, kept, keptBlock, hf, he],
                by simp [mergeSegment, conflictOf, hf, he], fun h k => ?_⟩
              simpa [mergeSegment, hf, he, blocksOf_append] using h k
      | some nb =>
          cases he : cur.edited with
          | false =>
              refine ⟨by simp [mergeSegment, kept, keptBlock, hf, he],
                by simp [mergeSegment, conflictOf, hf, he], fun h k => ?_⟩
              simp [mergeSegment, hf, he, blocksOf_append, h k, or_comm, blockKeys]
          | true =>
              refine ⟨by simp [mergeSegment, kept, keptBlock, hf, he], ?_, fun h k => ?_⟩
              · by_cases hc : nb.hash = cur.hash <;> simp [mergeSegment, conflictOf, hf, he, hc]
              · simp [mergeSegment, hf, he, blocksOf_append, h k, or_comm, blockKeys]

theorem foldl_mergeSegment (fresh : List Block) (existing : List Segment) (st : MergeState) :
    (existing.foldl (mergeSegment fresh) st).out = st.out ++ existing.filterMap (kept fresh) ∧
      (existing.foldl (mergeSegment fresh) st).conflicts =
        st.conflicts ++ existing.filterMap (conflictOf fresh) ∧
      (st.Marked → (existing.foldl (mergeSegment fresh) st).Marked) := by
  induction existing generalizing st with
  | nil => simp
  | cons s existing ih =>
      obtain ⟨ho, hc, hm⟩ := mergeSegment_spec fresh st s
      obtain ⟨iho, ihc, ihm⟩ := ih (mergeSegment fresh st s)
      refine ⟨?_, ?_, fun h => ihm (hm h)⟩
      · rw [List.foldl_cons, iho, ho, List.append_assoc, List.filterMap_cons]
        cases kept fresh s <;> rfl
      · rw [List.foldl_cons, ihc, hc, List.append_assoc, List.filterMap_cons]
        cases conflictOf fresh s <;> rfl

/-- **The pass over the existing segments** keeps each text and settles each block by itself. -/
theorem mergeExisting_out (existing : List Segment) (fresh : List Block) :
    (mergeExisting existing fresh).out = existing.filterMap (kept fresh) := by
  simpa [mergeExisting] using (foldl_mergeSegment fresh existing ⟨[], [], []⟩).1

theorem mergeExisting_conflicts (existing : List Segment) (fresh : List Block) :
    (mergeExisting existing fresh).conflicts = existing.filterMap (conflictOf fresh) := by
  simpa [mergeExisting] using (foldl_mergeSegment fresh existing ⟨[], [], []⟩).2.1

theorem mergeExisting_marked (existing : List Segment) (fresh : List Block) :
    (mergeExisting existing fresh).Marked :=
  (foldl_mergeSegment fresh existing ⟨[], [], []⟩).2.2 fun k => by simp [blockKeys]

/-! ### The insertion loop -/

/-- The ways a fresh block is inserted: after another block, as the first segment, or at the end
after a text with or without a newline at its end. -/
inductive Inserted (nb : Block) : List Segment → List Segment → Prop
  | after (segs segs' : List Segment) (b : Block) :
      Inserted nb (segs ++ .block b :: segs')
        (segs ++ .block b :: .text [newline, newline] :: .block nb :: segs')
  | first : Inserted nb [] [.block nb, .text [newline]]
  | newline (segs : List Segment) :
      Inserted nb segs (segs ++ [.text [Doc.newline], .block nb, .text [Doc.newline]])
  | last (segs : List Segment) :
      Inserted nb segs (segs ++ [.text [Doc.newline, Doc.newline], .block nb])

/-- The insertion point is the end, or follows a block. -/
theorem insertionPoint_cases (out : List Segment) (before : List Block) :
    insertionPoint out before = out.length ∨ ∃ segs segs' b,
      out = segs ++ .block b :: segs' ∧ insertionPoint out before = segs.length + 1 := by
  unfold insertionPoint
  cases h : before.findSome? fun b => blockIndex out b.key with
  | none => exact Or.inl rfl
  | some idx =>
      obtain ⟨b, -, hb⟩ := List.exists_of_findSome?_eq_some h
      obtain ⟨hlt, hkey, -⟩ := List.findIdx?_eq_some_iff_getElem.1 hb
      cases hs : out[idx] with
      | text t => simp [hs, Segment.hasKey] at hkey
      | block c =>
          refine Or.inr ⟨out.take idx, out.drop (idx + 1), c, ?_, ?_⟩
          · rw [← hs, List.getElem_cons_drop, List.take_append_drop]
          · simp [List.length_take, Nat.min_eq_left (Nat.le_of_lt hlt)]

/-- **One round of the insertion loop** leaves the state as it is, or inserts the block and marks
its key. -/
theorem insertFresh_cases (prevKeys : List Bytes) (before : List Block) (st : MergeState)
    (nb : Block) :
    (insertFresh prevKeys before st nb = st ∧ (nb.key ∈ st.present ∨ nb.key ∈ prevKeys)) ∨
      (nb.key ∉ st.present ∧ nb.key ∉ prevKeys ∧ ∃ out', Inserted nb st.out out' ∧
        insertFresh prevKeys before st nb = ⟨out', nb.key :: st.present, st.conflicts⟩) := by
  by_cases h : nb.key ∈ st.present ∨ nb.key ∈ prevKeys
  · exact Or.inl ⟨by simp [insertFresh, h], h⟩
  · refine Or.inr ⟨fun hp => h (Or.inl hp), fun hp => h (Or.inr hp), ?_⟩
    simp only [insertFresh, h, if_false]
    refine ⟨_, ?_, rfl⟩
    rcases insertionPoint_cases st.out before with hat | ⟨segs, segs', b, hout, hat⟩
    · rw [hat, List.take_length, List.drop_length, List.append_nil]
      unfold insertion
      by_cases h₀ : st.out = []
      · simpa [h₀] using Inserted.first
      · by_cases h₁ : endsWithNewline st.out = true
        · simpa [h₀, h₁] using Inserted.newline st.out
        · simpa [h₀, h₁] using Inserted.last st.out
    · by_cases hend : segs' = []
      · -- after the last segment, which is a block
        subst hend
        have hlast : endsWithNewline st.out = false := by simp [hout, endsWithNewline]
        have hne : st.out ≠ [] := by simp [hout]
        have hlen : insertionPoint st.out before = st.out.length := by
          rw [hat, hout]
          simp
        rw [hlen, List.take_length, List.drop_length, List.append_nil]
        simpa [insertion, hlast, hne] using Inserted.last st.out
      · have hlen : insertionPoint st.out before ≠ st.out.length := by
          have : 0 < segs'.length := List.length_pos_iff.2 hend
          rw [hat, hout]
          simp
          omega
        have htake : st.out.take (segs.length + 1) = segs ++ [.block b] := by
          rw [hout, List.take_append, List.take_of_length_le (by omega)]
          simp
        have hdrop : st.out.drop (segs.length + 1) = segs' := by
          rw [hout, List.drop_append]
          simp
        rw [insertion, if_neg fun hc => hlen hc.1, hat, htake, hdrop, hout]
        simpa using Inserted.after segs segs' b

/-- Inserting adds the key of the block to those of the segments. -/
theorem Inserted.mem_blockKeys {nb : Block} {out out' : List Segment} (h : Inserted nb out out')
    (k : Bytes) :
    k ∈ blockKeys (blocksOf out') ↔ k = nb.key ∨ k ∈ blockKeys (blocksOf out) := by
  cases h with
  | after segs segs' b =>
      simp only [blocksOf_append, blocksOf_block, blocksOf_text, blockKeys, List.map_append,
        List.map_cons, List.mem_append, List.mem_cons]
      tauto
  | first => simp [blockKeys]
  | newline => simp [blocksOf_append, blockKeys, or_comm]
  | last => simp [blocksOf_append, blockKeys, or_comm]

/-- What an invariant of the segments needs to survive the insertion loop. -/
theorem insertAll_induction {P : List Segment → Prop} {prevKeys : List Bytes} {fresh : List Block}
    (before : List Block) {st : MergeState} (hm : st.Marked) (h₀ : P st.out)
    (hstep : ∀ nb ∈ fresh, nb.key ∉ prevKeys → ∀ out out', nb.key ∉ blockKeys (blocksOf out) →
      P out → Inserted nb out out' → P out') :
    P (insertAll prevKeys before fresh st).out ∧
      (insertAll prevKeys before fresh st).conflicts = st.conflicts := by
  induction fresh generalizing before st with
  | nil => exact ⟨h₀, rfl⟩
  | cons nb fresh ih =>
      have hstep' : ∀ nb ∈ fresh, nb.key ∉ prevKeys → ∀ out out',
          nb.key ∉ blockKeys (blocksOf out) → P out → Inserted nb out out' → P out' :=
        fun nb' hmem => hstep nb' (List.mem_cons_of_mem nb hmem)
      rcases insertFresh_cases prevKeys before st nb with ⟨he, -⟩ | ⟨hnp, hnk, out', hi, he⟩
      · rw [insertAll, he]
        exact ih (nb :: before) hm h₀ hstep'
      · rw [insertAll, he]
        refine ih (nb :: before) (fun k => ?_)
          (hstep nb List.mem_cons_self hnk st.out out' (fun hc => hnp ((hm _).2 hc)) h₀ hi) hstep'
        rw [hi.mem_blockKeys, ← hm k, List.mem_cons]

/-- **The induction rule of the merge.**  What holds of the kept segments, and survives the
insertion of a fresh block whose key is neither in the segments nor in the previous render, holds
of the merged segments. -/
theorem merge_induction {P : List Segment → Prop} {existing : List Segment}
    {prevKeys : List Bytes} {fresh : List Block} (h₀ : P (existing.filterMap (kept fresh)))
    (hstep : ∀ nb ∈ fresh, nb.key ∉ prevKeys → ∀ out out', nb.key ∉ blockKeys (blocksOf out) →
      P out → Inserted nb out out' → P out') :
    P (merge existing prevKeys fresh).1 :=
  (insertAll_induction [] (mergeExisting_marked existing fresh)
    (by rwa [mergeExisting_out]) hstep).1

/-- The conflicts are those of the existing blocks. -/
theorem merge_conflicts (existing : List Segment) (prevKeys : List Bytes) (fresh : List Block) :
    (merge existing prevKeys fresh).2 = existing.filterMap (conflictOf fresh) := by
  rw [← mergeExisting_conflicts]
  exact (insertAll_induction (P := fun _ => True) [] (mergeExisting_marked existing fresh) trivial
    fun _ _ _ _ _ _ _ _ => trivial).2

/-- Nothing is inserted when every fresh key was in the previous render. -/
theorem merge_of_subset {existing : List Segment} {prevKeys : List Bytes} {fresh : List Block}
    (h : ∀ k ∈ blockKeys fresh, k ∈ prevKeys) :
    (merge existing prevKeys fresh).1 = existing.filterMap (kept fresh) :=
  merge_induction (P := fun out => out = existing.filterMap (kept fresh)) rfl
    fun nb hmem hnk _ _ _ _ _ => (hnk (h _ (List.mem_map.2 ⟨nb, hmem, rfl⟩))).elim

/-! ### The keys of the result -/

/-- The keys of the kept blocks: those that the doc and the render have. -/
theorem mem_blockKeys_kept (existing : List Segment) (fresh : List Block) (k : Bytes) :
    k ∈ blockKeys (blocksOf (existing.filterMap (kept fresh))) ↔
      k ∈ blockKeys (blocksOf existing) ∧ k ∈ blockKeys fresh := by
  induction existing with
  | nil => simp [blockKeys]
  | cons s existing ih =>
      cases s with
      | text t => simpa [kept] using ih
      | block b =>
          rw [List.filterMap_cons, kept, keptBlock]
          cases hf : freshByKey fresh b.key with
          | none =>
              have hb : b.key ∉ blockKeys fresh := freshByKey_eq_none.1 hf
              have hiff : k ∈ blockKeys (b :: blocksOf existing) ∧ k ∈ blockKeys fresh ↔
                  k ∈ blockKeys (blocksOf existing) ∧ k ∈ blockKeys fresh := by
                simp only [blockKeys, List.map_cons, List.mem_cons] at hb ⊢
                constructor
                · rintro ⟨rfl | h, h'⟩
                  · exact (hb h').elim
                  · exact ⟨h, h'⟩
                · rintro ⟨h, h'⟩
                  exact ⟨Or.inr h, h'⟩
              by_cases he : b.edited = true
              · simpa [he, hiff] using ih
              · simpa [he, hiff] using ih
          | some nb =>
              obtain ⟨hmem, hkey⟩ := freshByKey_eq_some hf
              have hb : b.key ∈ blockKeys fresh := List.mem_map.2 ⟨nb, hmem, hkey⟩
              have hk : (if b.edited = true then b else nb).key = b.key := by
                split
                · rfl
                · exact hkey
              simp only [blocksOf_block, blockKeys, List.map_cons, List.mem_cons, hk] at ih hb ⊢
              constructor
              · rintro (rfl | h)
                · exact ⟨Or.inl rfl, hb⟩
                · exact ⟨Or.inr (ih.1 h).1, (ih.1 h).2⟩
              · rintro ⟨rfl | h, h'⟩
                · exact Or.inl rfl
                · exact Or.inr (ih.2 ⟨h, h'⟩)

/-- What the insertion loop adds to the keys. -/
theorem mem_blockKeys_insertAll {prevKeys : List Bytes} (before fresh : List Block)
    {st : MergeState} (hm : st.Marked) (k : Bytes) :
    k ∈ blockKeys (blocksOf (insertAll prevKeys before fresh st).out) ↔
      k ∈ blockKeys (blocksOf st.out) ∨ (k ∈ blockKeys fresh ∧ k ∉ prevKeys) := by
  induction fresh generalizing before st with
  | nil => simp [insertAll, blockKeys]
  | cons nb fresh ih =>
      rcases insertFresh_cases prevKeys before st nb with ⟨he, hin⟩ | ⟨hnp, hnk, out', hi, he⟩
      · rw [insertAll, he, ih (nb :: before) hm]
        simp only [blockKeys, List.map_cons, List.mem_cons]
        constructor
        · rintro (h | ⟨h, h'⟩)
          · exact Or.inl h
          · exact Or.inr ⟨Or.inr h, h'⟩
        · rintro (h | ⟨rfl | h, h'⟩)
          · exact Or.inl h
          · exact Or.inl ((hm _).1 (hin.resolve_right h'))
          · exact Or.inr ⟨h, h'⟩
      · have hm' : MergeState.Marked ⟨out', nb.key :: st.present, st.conflicts⟩ := fun k' => by
          rw [hi.mem_blockKeys, ← hm k', List.mem_cons]
        rw [insertAll, he, ih (nb :: before) hm', hi.mem_blockKeys]
        simp only [blockKeys, List.map_cons, List.mem_cons]
        constructor
        · rintro ((rfl | h) | ⟨h, h'⟩)
          · exact Or.inr ⟨Or.inl rfl, hnk⟩
          · exact Or.inl h
          · exact Or.inr ⟨Or.inr h, h'⟩
        · rintro (h | ⟨rfl | h, h'⟩)
          · exact Or.inl (Or.inr h)
          · exact Or.inl (Or.inl rfl)
          · exact Or.inr ⟨h, h'⟩

/-- **The keys of the merged segments**: those the doc shares with the render, and those of the
render that the previous one did not have. -/
theorem mem_blockKeys_merge (existing : List Segment) (prevKeys : List Bytes) (fresh : List Block)
    (k : Bytes) :
    k ∈ blockKeys (blocksOf (merge existing prevKeys fresh).1) ↔
      k ∈ blockKeys fresh ∧ (k ∈ blockKeys (blocksOf existing) ∨ k ∉ prevKeys) := by
  rw [merge, mem_blockKeys_insertAll [] fresh (mergeExisting_marked existing fresh),
    mergeExisting_out, mem_blockKeys_kept]
  tauto

end WiseLabz.Doc
