/-
**Deleted sections over runs of syncs and saves.**

A generated section that a user has deleted is told from one that is new upstream by the stored keys
of the last applied render, which every sync overwrites.  So whether a deleted section comes back
depends on the history that these keys have kept.  This module follows one doc through any run of
syncs and human saves.

Main definitions:

* `Doc.docMachine` — **one doc, its syncs and its human saves**;
* `Doc.writtenSegments`, `Doc.Printed`, `Doc.Reinserts` — what a sync writes, and when it inserts a
  section;
* `Doc.Remembers` — the stored keys tell the missing section from a new one.

Main results:

* `Doc.SavedState.step` — after a human save, a doc that predates the block markers has a newest
  version by a user;
* `Doc.deleted_section_returns_iff` — **when a deleted section stays deleted**;
* `Doc.deleted_section_returns` — a run in which it comes back.
-/

import WiseLabz.Doc.Engine

set_option relaxedAutoImplicit false
set_option autoImplicit false

namespace WiseLabz.Doc

open Lib Store

/-! ### The machine -/

/-- What happens to a doc. -/
inductive DocEvent
  | sync (r : Render) (now : ℕ) (newId : ℕ → ℕ)
  | save (content : Bytes) (expectedVersion : Option ℕ) (author trigger : Bytes) (now : ℕ)

/-- The keys of the generated blocks of a content. -/
def contentKeys (content : Bytes) : List Bytes := blockKeys (blocksOf (parseBlocks content))

/-- **One doc, its syncs and its human saves.**  A sync passes over a doc of human origin; a save is
by a user. -/
def docMachine (id : Bytes) : Machine Db DocEvent where
  init db := UniqueIds db ∧ ∃ d, getDoc db id = some d ∧
    ∀ v ∈ db.versions, v.docId = id → v.rev ≤ d.currentVersion
  step db ev db' :=
    match ev with
    | .sync r now newId =>
        ∃ d, getDoc db id = some d ∧
          if d.origin = .human then db' = db else syncDoc db d r now newId = .ok db'
    | .save content expectedVersion author trigger now =>
        author ≠ [] ∧ ∃ rev,
          updateDocWithVersion db id content expectedVersion author trigger now = .ok (db', rev)

/-- The segments that a sync prints. -/
def writtenSegments (db : Db) (d : DocRecord) (r : Render) : List Segment :=
  match baselineKeys d with
  | some prev => (merge (parseBlocks d.content) prev r.blocks).1
  | none => if HumanLatest db d.id then parseBlocks d.content else freshSegments r.blocks

/-- The event is a sync that writes the section `k` into a doc without it. -/
def Reinserts (id k : Bytes) (db : Db) : DocEvent → Prop
  | .sync r _ _ => ∃ d, getDoc db id = some d ∧ d.origin ≠ .human ∧ k ∉ contentKeys d.content ∧
      k ∈ blockKeys (blocksOf (writtenSegments db d r))
  | .save .. => False

/-- A sync of a doc that is not of human origin stores the segments that it prints. -/
def Printed (id : Bytes) (db db' : Db) : DocEvent → Prop
  | .sync r _ _ => ∀ d, getDoc db id = some d → d.origin ≠ .human →
      ∃ d', getDoc db' id = some d' ∧ d'.content = renderSegments (writtenSegments db d r)
  | .save .. => True

/-- **The stored keys tell the missing section from a new one**: when a sync finds a generated doc
without the section `k`, which the render has, then `k` is among the stored keys; a doc without
stored keys has no generated block at all. -/
def Remembers (id k : Bytes) (db : Db) : DocEvent → Prop
  | .sync r _ _ => ∀ d, getDoc db id = some d → d.origin ≠ .human → k ∉ contentKeys d.content →
      k ∈ r.keys →
      match d.genKeys with
      | some keys => k ∈ keys
      | none => blocksOf (parseBlocks d.content) = []
  | .save .. => True

/-! ### What a sync writes -/

/-- **A successful sync prints the written segments.** -/
theorem syncDoc_content {db db' : Db} {id : Bytes} {d : DocRecord} {r : Render} {now : ℕ}
    {newId : ℕ → ℕ} (hu : UniqueIds db) (hd : getDoc db id = some d)
    (h : syncDoc db d r now newId = .ok db') :
    ∃ d', getDoc db' id = some d' ∧ d'.content = renderSegments (writtenSegments db d r) := by
  have hid := (getDoc_eq_some hd).2.1
  obtain ⟨-, d', hd', hcase, -⟩ := syncDoc_spec hu hd h
  refine ⟨d', hd', ?_⟩
  rcases hcase with ⟨prev, hp, hc, -⟩ | ⟨hp, hl, hc, -⟩ | ⟨hp, hl, hc, -⟩
  · rw [hc, writtenSegments, hp, syncContent]
  · rw [hc, writtenSegments, hp, hid]
    simp [hl, renderSegments_parseBlocks]
  · rw [hc, writtenSegments, hp, hid]
    simp [hl, renderFresh]

/-- The sections that a sync writes into a doc with baseline keys. -/
theorem mem_writtenSegments {db : Db} {d : DocRecord} {r : Render} {prev : List Bytes} {k : Bytes}
    (hp : baselineKeys d = some prev) :
    k ∈ blockKeys (blocksOf (writtenSegments db d r)) ↔
      k ∈ r.keys ∧ (k ∈ contentKeys d.content ∨ k ∉ prev) := by
  rw [writtenSegments, hp]
  exact mem_blockKeys_merge _ _ _ _

/-! ### The states after a human save -/

/-- The state of a doc that a user has saved: its versions do not go beyond its counter, and if it
has no stored keys its newest version is by a user. -/
structure SavedState (id : Bytes) (db : Db) : Prop where
  unique : UniqueIds db
  versions : ∃ d, getDoc db id = some d ∧
    (∀ v ∈ db.versions, v.docId = id → v.rev ≤ d.currentVersion) ∧
    (d.genKeys = none → HumanLatest db id)

/-- The row appended with the next revision is the newest. -/
theorem humanLatest_of_append {db db' : Db} {d d' : DocRecord} {v : DocVersionRecord}
    (hbound : ∀ v ∈ db.versions, v.docId = d.id → v.rev ≤ d.currentVersion)
    (hd' : getDoc db' d.id = some d') (hv : db'.versions = db.versions ++ [v])
    (hdoc : v.docId = d.id) (hrev : v.rev = d.currentVersion + 1) (ha : v.author ≠ []) :
    HumanLatest db' d.id := by
  have hle : IsTrans DocVersionRecord fun v v' => v'.rev ≤ v.rev := ⟨fun _ _ _ h h' => h'.trans h⟩
  have htotal : Std.Total fun v v' : DocVersionRecord => v'.rev ≤ v.rev :=
    ⟨fun v v' => le_total v'.rev v.rev⟩
  have hhead : (getDocVersions db' d.id).head? = some v := by
    rw [getDocVersions, if_pos (by simp [hd'])]
    refine head_insertionSort_of_strict (by simp [hv, hdoc]) ?_
    intro w hw hne hrel
    simp only [hv, List.filter_append, List.mem_append, List.mem_filter, beq_iff_eq,
      List.mem_singleton] at hw
    rcases hw with ⟨hw, hwd⟩ | ⟨rfl, -⟩
    · have := hbound w hw hwd
      omega
    · exact hne rfl
  exact ⟨v, hhead, ha⟩

/-- A bound on the revisions survives the row of the next one. -/
theorem versions_le_of_append {db db' : Db} {id : Bytes} {n : ℕ} {v : DocVersionRecord}
    (hbound : ∀ v ∈ db.versions, v.docId = id → v.rev ≤ n)
    (hv : db'.versions = db.versions ++ [v]) (hrev : v.rev = n + 1) :
    ∀ v ∈ db'.versions, v.docId = id → v.rev ≤ n + 1 := by
  intro w hw hwd
  rw [hv, List.mem_append, List.mem_singleton] at hw
  rcases hw with hw | rfl
  · exact (hbound w hw hwd).trans (Nat.le_succ n)
  · exact hrev.le

/-- The bound on the revisions is an invariant of the machine. -/
theorem docMachine_init_step {id : Bytes} {db db' : Db} {ev : DocEvent}
    (h : (docMachine id).init db) (hs : (docMachine id).step db ev db') :
    (docMachine id).init db' := by
  obtain ⟨hu, d, hd, hbound⟩ := h
  cases ev with
  | sync r now newId =>
      obtain ⟨d₀, hd₀, hs⟩ := hs
      obtain rfl : d₀ = d := Option.some.inj (hd₀.symm.trans hd)
      split at hs
      · rw [hs]
        exact ⟨hu, d₀, hd, hbound⟩
      · obtain ⟨hu', d', hd', -, hv⟩ := syncDoc_spec hu hd hs
        refine ⟨hu', d', hd', ?_⟩
        rcases hv with ⟨hcv, hv⟩ | ⟨hcv, v, hrev, hv⟩
        · rw [hcv, hv]
          exact hbound
        · rw [hcv]
          exact versions_le_of_append hbound hv hrev
  | save content expectedVersion author trigger now =>
      obtain ⟨-, rev, hs⟩ := hs
      obtain ⟨d₀, hd₀, hd', hv, hu'⟩ := updateDocWithVersion_getDoc hu hs
      obtain rfl : d₀ = d := Option.some.inj (hd₀.symm.trans hd)
      exact ⟨hu', _, hd', versions_le_of_append hbound hv rfl⟩

/-- A human save leads to a saved state. -/
theorem SavedState.of_save {id : Bytes} {db db' : Db} {content : Bytes}
    {expectedVersion : Option ℕ} {author trigger : Bytes} {now : ℕ}
    (h : (docMachine id).init db)
    (hs : (docMachine id).step db (.save content expectedVersion author trigger now) db') :
    SavedState id db' := by
  have hinit' := docMachine_init_step h hs
  obtain ⟨hu, d, hd, hbound⟩ := h
  obtain ⟨hauthor, rev, hs⟩ := hs
  obtain ⟨d₀, hd₀, hd', hv, hu'⟩ := updateDocWithVersion_getDoc hu hs
  obtain rfl : d₀ = d := Option.some.inj (hd₀.symm.trans hd)
  obtain rfl := (getDoc_eq_some hd).2.1
  refine ⟨hu', _, hd', versions_le_of_append hbound hv rfl, fun _ => ?_⟩
  exact humanLatest_of_append hbound hd' hv rfl rfl hauthor

/-- **Saved states are kept by every step.** -/
theorem SavedState.step {id : Bytes} {db db' : Db} {ev : DocEvent} (h : SavedState id db)
    (hs : (docMachine id).step db ev db') : SavedState id db' := by
  obtain ⟨hu, d, hd, hbound, hlatest⟩ := h
  have hinit : (docMachine id).init db := ⟨hu, d, hd, hbound⟩
  cases ev with
  | save content expectedVersion author trigger now => exact .of_save hinit hs
  | sync r now newId =>
      obtain ⟨hu', d', hd', hbound'⟩ := docMachine_init_step hinit hs
      refine ⟨hu', d', hd', hbound', fun hnone => ?_⟩
      obtain ⟨d₀, hd₀, hs⟩ := hs
      obtain rfl : d₀ = d := Option.some.inj (hd₀.symm.trans hd)
      split at hs
      · subst hs
        obtain rfl : d₀ = d' := Option.some.inj (hd₀.symm.trans hd')
        exact hlatest hnone
      · obtain ⟨-, d₁, hd₁, hcase, -⟩ := syncDoc_spec hu hd hs
        obtain rfl : d₁ = d' := Option.some.inj (hd₁.symm.trans hd')
        rcases hcase with ⟨prev, -, -, hk, -⟩ | ⟨-, hl, -, hk, -, hv⟩ | ⟨-, -, -, hk, -⟩
        · simp [hk] at hnone
        · have hsame : getDocVersions db' id = getDocVersions db id := by
            simp [getDocVersions, hd, hd', hv]
          rw [HumanLatest, hsame]
          exact hl
        · simp [hk] at hnone

/-! ### When a deleted section stays deleted -/

/-- In a saved state, a sync inserts the missing section exactly when the stored keys do not
remember it. -/
theorem reinserts_iff {id k : Bytes} {db : Db} (h : SavedState id db) (ev : DocEvent) :
    Reinserts id k db ev ↔ ¬ Remembers id k db ev := by
  cases ev with
  | save => simp [Reinserts, Remembers]
  | sync r now newId =>
      obtain ⟨d, hd, -, hlatest⟩ := h.versions
      have hid := (getDoc_eq_some hd).2.1
      simp only [Reinserts, Remembers, hd, Option.some.injEq, exists_eq_left', forall_eq',
        Classical.not_imp]
      refine and_congr_right fun _ => and_congr_right fun hmissing => ?_
      cases hk : d.genKeys with
      | some keys =>
          have hbase : baselineKeys d = some keys := by simp [baselineKeys, hk]
          rw [mem_writtenSegments hbase]
          simp [hmissing]
      | none =>
          by_cases hb : blocksOf (parseBlocks d.content) = []
          · -- the doc predates the markers, and its newest version is by a user
            have hbase : baselineKeys d = none := by simp [baselineKeys, hk, hb]
            have hl : HumanLatest db d.id := hid ▸ hlatest hk
            have hnil : blockKeys (blocksOf (writtenSegments db d r)) = [] := by
              simp [writtenSegments, hbase, hl, hb, blockKeys]
            simp [hnil, hb]
          · have hbase : baselineKeys d = some (contentKeys d.content) := by
              simp [baselineKeys, hk, hb, contentKeys]
            rw [mem_writtenSegments hbase]
            simp [hmissing, hb]

/-- The content that a sync stores. -/
theorem printed_of_step {id : Bytes} {db db' : Db} {ev : DocEvent} (hu : UniqueIds db)
    (hs : (docMachine id).step db ev db') : Printed id db db' ev := by
  cases ev with
  | save => trivial
  | sync r now newId =>
      intro d hd horigin
      obtain ⟨d₀, hd₀, hs⟩ := hs
      obtain rfl : d₀ = d := Option.some.inj (hd₀.symm.trans hd)
      rw [if_neg horigin] at hs
      exact syncDoc_content hu hd hs

/-- **When a deleted section stays deleted.**  Take any run of syncs and saves, a human save in it,
and the events `after` it: every sync among them stores the segments that it prints, and none of
them inserts the section `k` into the doc without it, exactly when at each of them the stored keys
remember the section. -/
theorem deleted_section_returns_iff {id : Bytes} (k : Bytes) {db₀ db db₁ : Db}
    {before : List DocEvent} (after : List DocEvent) {content : Bytes} {expectedVersion : Option ℕ}
    {author trigger : Bytes} {now : ℕ} (h₀ : (docMachine id).init db₀)
    (hbefore : Machine.Run (docMachine id) db₀ before db)
    (hsave : (docMachine id).step db (.save content expectedVersion author trigger now) db₁) :
    (∀ pre ev post u v, after = pre ++ ev :: post → Machine.Run (docMachine id) db₁ pre u →
        (docMachine id).step u ev v → Printed id u v ev) ∧
    ((∀ pre ev post u, after = pre ++ ev :: post → Machine.Run (docMachine id) db₁ pre u →
        ¬ Reinserts id k u ev) ↔
      ∀ pre ev post u, after = pre ++ ev :: post → Machine.Run (docMachine id) db₁ pre u →
        Remembers id k u ev) := by
  have hinit : (docMachine id).init db :=
    hbefore.invariant (fun _ _ _ h hs => docMachine_init_step h hs) h₀
  have hsaved : SavedState id db₁ := .of_save hinit hsave
  have hstate : ∀ {pre u}, Machine.Run (docMachine id) db₁ pre u → SavedState id u :=
    fun hr => hr.invariant (fun _ _ _ h hs => h.step hs) hsaved
  refine ⟨fun pre ev post u v _ hr hs => printed_of_step (hstate hr).unique hs, ?_⟩
  constructor
  · intro h pre ev post u hsplit hr
    by_contra hrem
    exact h pre ev post u hsplit hr ((reinserts_iff (hstate hr) ev).2 hrem)
  · intro h pre ev post u hsplit hr hre
    exact (reinserts_iff (hstate hr) ev).1 hre (h pre ev post u hsplit hr)

/-! ### A section that goes upstream and comes back -/

/-- A generated doc of one section, with its key stored. -/
def sectionDoc : DocRecord :=
  { restoredDoc with
    content := renderFresh [newBlock (bytes "b") (bytes "gen")]
    genKeys := some [bytes "b"] }

/-- The tables with this doc alone. -/
def sectionDb : Db := ⟨[sectionDoc], [⟨bytes "d", 1, sectionDoc.content, [], bytes "template"⟩], [], []⟩

/-- A user has replaced the whole content with a note. -/
def notedDoc : DocRecord := sectionDoc.withContent (bytes "note\n") 1

/-- The tables with the note. -/
def notedDb : Db :=
  ⟨[notedDoc], sectionDb.versions ++ [⟨bytes "d", 2, bytes "note\n", bytes "u", bytes "edit"⟩],
    [], []⟩

/-- The tables after a sync with a render of no sections, which stores that render's keys. -/
def emptiedDb : Db := { notedDb with docs := [notedDoc.touched [] 2] }

theorem sectionDb_init : (docMachine (bytes "d")).init sectionDb := by
  refine ⟨List.nodup_singleton _, sectionDoc, rfl, ?_⟩
  intro v hv _
  obtain rfl := List.mem_singleton.1 hv
  exact le_rfl

theorem section_save :
    (docMachine (bytes "d")).step sectionDb (.save (bytes "note\n") none (bytes "u") (bytes "edit") 1)
      notedDb := ⟨by decide, 2, rfl⟩

set_option maxRecDepth 100000 in
theorem section_sync_empty :
    (docMachine (bytes "d")).step notedDb (.sync emptyRender 2 id) emptiedDb := by
  refine ⟨notedDoc, rfl, ?_⟩
  have hbase : baselineKeys notedDoc = some [bytes "b"] := rfl
  have hsame : syncContent notedDoc.content [bytes "b"] emptyRender = notedDoc.content := by
    decide
  have hconf : (merge (parseBlocks notedDoc.content) [bytes "b"] emptyRender.blocks).2 = [] := by
    decide
  show syncDoc notedDb notedDoc emptyRender 2 id = .ok emptiedDb
  rw [syncDoc_of_same hbase hsame, hconf]
  rfl

set_option maxRecDepth 100000 in
/-- The sync right after the save leaves the section deleted: its key is still stored. -/
theorem deleted_section_stays :
    ¬ Reinserts (bytes "d") (bytes "b") notedDb (.sync sampleRender 2 id) := by
  refine (deleted_section_returns_iff (bytes "b") [.sync sampleRender 2 id] sectionDb_init
    .nil section_save).2.2 ?_ [] _ [] notedDb rfl .nil
  intro pre ev post u hsplit hr
  obtain ⟨rfl, rfl, rfl⟩ : pre = [] ∧ ev = .sync sampleRender 2 id ∧ post = [] := by
    cases pre with
    | nil => simpa [eq_comm] using hsplit
    | cons ev' pre => simp at hsplit
  obtain rfl := hr.nil_inv
  intro d hd _ _ _
  obtain rfl : notedDoc = d := Option.some.inj hd
  exact List.mem_singleton.2 rfl

set_option maxRecDepth 100000 in
/-- **A deleted section that comes back**: a user deletes it, upstream drops it for one sync, which
forgets its key, and the sync that finds it upstream again inserts it. -/
theorem deleted_section_returns :
    ¬ ∀ (id k : Bytes) (db₀ db db₁ : Db) (before after : List DocEvent) (content : Bytes)
      (expectedVersion : Option ℕ) (author trigger : Bytes) (now : ℕ),
      (docMachine id).init db₀ →
      Machine.Run (docMachine id) db₀ before db →
      (∃ d, getDoc db id = some d ∧ k ∈ contentKeys d.content) →
      k ∉ contentKeys content →
      (docMachine id).step db (.save content expectedVersion author trigger now) db₁ →
      ∀ pre ev post u, after = pre ++ ev :: post → Machine.Run (docMachine id) db₁ pre u →
        ¬ Reinserts id k u ev := by
  intro h
  have hhad : bytes "b" ∈ contentKeys sectionDoc.content := by decide
  have hgone : bytes "b" ∉ contentKeys (bytes "note\n") := by decide
  refine h (bytes "d") (bytes "b") sectionDb sectionDb notedDb []
    [.sync emptyRender 2 id, .sync sampleRender 3 id] _ _ _ _ _ sectionDb_init .nil
    ⟨sectionDoc, rfl, hhad⟩ hgone section_save [.sync emptyRender 2 id] (.sync sampleRender 3 id) []
    emptiedDb rfl (.single section_sync_empty) ?_
  have hbase : baselineKeys (notedDoc.touched [] 2) = some [] := rfl
  have hmiss : bytes "b" ∉ contentKeys (notedDoc.touched [] 2).content := by decide
  refine ⟨notedDoc.touched [] 2, rfl, by decide, hmiss, ?_⟩
  exact (mem_writtenSegments hbase).2 ⟨by decide, Or.inr List.not_mem_nil⟩

end WiseLabz.Doc
