/-
**Syncing and regenerating docs.**

Two paths write the generated parts of a connector's docs: a sync, and a generation through a
template.  Here is what each of them keeps of a doc, and that a sync whose upstream has not changed
writes nothing.

Main definitions:

* `Doc.generateFromTemplate` — **generating through a template**, into the connector's first
  generated doc or a new one;
* `Doc.syncedContent`, `Doc.templateContent` — the content each path gives a doc.

Main results:

* `Doc.unchanged_upstream_writes_nothing` — **a second sync with the same render** gives the same
  content and conflicts, and creates no version;
* `Doc.inOrder_syncedContent` — a sync keeps the human text of a doc;
* `Doc.template_keeps_humanText_iff` — **when a generation through a template keeps it**.
-/

import WiseLabz.Doc.Ownership

set_option relaxedAutoImplicit false
set_option autoImplicit false

namespace WiseLabz.Doc

open Lib Store

/-! ### Generating through a template -/

/-- `ListDocsByService`: `ORDER BY updated_at DESC`. -/
def listDocsByService (db : Db) (serviceId : Bytes) : List DocRecord :=
  (db.docs.filter fun d => d.serviceId == serviceId && d.deletedAt.isNone).insertionSort
    fun d d' => d'.updatedAt ≤ d.updatedAt

/-- The content that a generation through a template gives an existing doc: merged with the stored
content when the doc has stored keys, else the fresh render. -/
def templateContent (d : DocRecord) (r : Render) : Bytes :=
  match d.genKeys with
  | some prev => syncContent d.content prev r
  | none => renderFresh r.blocks

/-- `createGeneratedDoc`: a new doc and its first version in one transaction. -/
def createGeneratedDoc (db : Db) (id connectorId templateId title : Bytes) (r : Render)
    (trigger : Bytes) (now : ℕ) : Except StoreError Db := do
  let db ← createDoc db
    { id := id, title := title, kind := .service, serviceId := connectorId
      content := renderFresh r.blocks, currentVersion := 1, updatedAt := now, origin := .generated
      templateId := templateId, lastSyncedAt := some now, genKeys := some r.keys, parentId := []
      deletedAt := none, createdBy := [], topologyFingerprint := [] }
  createDocVersion db ⟨id, 1, renderFresh r.blocks, [], trigger⟩

/-- **`GenerateFromTemplate`**: re-renders the connector's first generated doc, or creates one.  It
returns the tables, the id of the doc and the content it has written. -/
def generateFromTemplate (db : Db) (templateId connectorId title : Bytes) (r : Render)
    (now : ℕ) (newId : Bytes) : Except StoreError (Db × Bytes × Bytes) :=
  match (listDocsByService db connectorId).find? fun d => d.origin != .human with
  | some d => do
      let content := templateContent d r
      let (db, _) ← applyGeneratedRender db d.id
        { content := content, genKeys := r.keys, expectedVersion := some d.currentVersion
          author := [], trigger := bytes "template", origin := some .generated
          templateId := some templateId } now
      return (db, d.id, content)
  | none => do
      let db ← createGeneratedDoc db newId connectorId templateId title r (bytes "template") now
      return (db, newId, renderFresh r.blocks)

/-! ### What both paths keep -/

/-- The content that a sync leaves a doc with; a doc from before the block markers has none here. -/
def syncedContent (d : DocRecord) (r : Render) : Option Bytes :=
  (baselineKeys d).map fun prev => syncContent d.content prev r

/-- **A sync keeps the human text of a doc.** -/
theorem inOrder_syncContent (content : Bytes) (prev : List Bytes) (r : Render) :
    InOrder (humanText content) (syncContent content prev r) :=
  (Embeds.of_sublist (humanParts_merge (parseBlocks content) prev r.blocks)).inOrder
    (inOrder_humanParts _)

/-- A doc with a block has baseline keys. -/
theorem baselineKeys_of_block {d : DocRecord} (h : blocksOf (parseBlocks d.content) ≠ []) :
    ∃ prev, baselineKeys d = some prev := by
  unfold baselineKeys
  cases d.genKeys with
  | some keys => exact ⟨keys, rfl⟩
  | none => exact ⟨_, by rw [if_neg h]⟩

/-- What a successful generation into an existing doc returns. -/
theorem generateFromTemplate_of_doc {db db' : Db} {templateId connectorId title newId : Bytes}
    {r : Render} {now : ℕ} {d : DocRecord} {docId content : Bytes}
    (hd : (listDocsByService db connectorId).find? (fun d => d.origin != .human) = some d)
    (h : generateFromTemplate db templateId connectorId title r now newId =
      .ok (db', docId, content)) :
    docId = d.id ∧ content = templateContent d r ∧
      ∃ rev, (⟨d.id, rev, content, [], bytes "template"⟩ : DocVersionRecord) ∈ db'.versions := by
  rw [generateFromTemplate, hd] at h
  obtain ⟨⟨db₁, rev⟩, happly, hret⟩ := bind_eq_ok.1 h
  simp only [pure_eq_ok, Prod.mk.injEq] at hret
  obtain ⟨rfl, rfl, rfl⟩ := hret
  obtain ⟨db₂, db₃, -, hv, rfl⟩ := applyGeneratedRender_eq_ok.1 happly
  obtain ⟨-, -, rfl⟩ := createDocVersion_eq_ok.1 hv
  exact ⟨rfl, rfl, rev, by simp⟩

/-- **When a generation through a template keeps the human text.**  Of the doc it re-renders, which
has a block, it keeps the human text exactly when the doc has stored keys or the fresh render
happens to contain that text; a sync with the same render keeps it always, and gives the same
content when the doc has stored keys. -/
theorem template_keeps_humanText_iff {db db' : Db} {templateId connectorId title newId : Bytes}
    {r : Render} {now : ℕ} {d : DocRecord} {docId content : Bytes}
    (hd : (listDocsByService db connectorId).find? (fun d => d.origin != .human) = some d)
    (hblock : blocksOf (parseBlocks d.content) ≠ [])
    (h : generateFromTemplate db templateId connectorId title r now newId =
      .ok (db', docId, content)) :
    (InOrder (humanText d.content) content ↔
      d.genKeys ≠ none ∨ InOrder (humanText d.content) (renderFresh r.blocks)) ∧
    ∃ synced, syncedContent d r = some synced ∧ InOrder (humanText d.content) synced ∧
      (d.genKeys ≠ none → content = synced) := by
  obtain ⟨-, rfl, -⟩ := generateFromTemplate_of_doc hd h
  obtain ⟨prev, hprev⟩ := baselineKeys_of_block hblock
  constructor
  · cases hk : d.genKeys with
    | none => simp [templateContent, hk]
    | some keys => simpa [templateContent, hk] using inOrder_syncContent d.content keys r
  · refine ⟨syncContent d.content prev r, by simp [syncedContent, hprev],
      inOrder_syncContent d.content prev r, fun hne => ?_⟩
    cases hk : d.genKeys with
    | none => exact (hne hk).elim
    | some keys =>
        obtain rfl : keys = prev := by simpa [baselineKeys, hk] using hprev
        simp [templateContent, hk]

/-! ### A doc with blocks and no stored keys -/

/-- A render with one section. -/
def sampleRender : Render where
  blocks := [newBlock (bytes "b") (bytes "gen")]
  generated := by
    intro b hb
    exact ⟨bytes "b", bytes "gen", List.mem_singleton.1 hb⟩
  distinct := by simp [blockKeys]

/-- A generated doc with a block and a human note, as a backup brings it back: its keys are not
stored. -/
def restoredDoc : DocRecord where
  id := bytes "d"
  title := bytes "Doc"
  kind := .service
  serviceId := bytes "s"
  content := plainDoc
  currentVersion := 1
  updatedAt := 0
  origin := .generated
  templateId := []
  lastSyncedAt := none
  genKeys := none
  parentId := []
  deletedAt := none
  createdBy := []
  topologyFingerprint := []

/-- The tables with this doc alone. -/
def restoredDb : Db := ⟨[restoredDoc], [⟨bytes "d", 1, plainDoc, [], bytes "restore"⟩], [], []⟩

/-- A generation through a template renders the one doc of the tables again, whatever its content
and its stored keys are. -/
theorem generateFromTemplate_restored (content : Bytes) (genKeys : Option (List Bytes))
    (r : Render) :
    ∃ db', generateFromTemplate
      ⟨[{ restoredDoc with content := content, genKeys := genKeys }],
        [⟨bytes "d", 1, content, [], bytes "restore"⟩], [], []⟩
      (bytes "t") (bytes "s") (bytes "Doc") r 1 (bytes "n") = .ok (db', bytes "d", templateContent
        { restoredDoc with content := content, genKeys := genKeys } r) := ⟨_, rfl⟩

/-- Its block is the one that a render writes. -/
theorem blocksOf_plainDoc : blocksOf (parseBlocks plainDoc) ≠ [] := by
  simp [parseBlocks_plainDoc, blocksOf, Segment.block?]

/-- With stored keys the note is kept. -/
theorem template_keeps_synced :
    InOrder (humanText plainDoc) (templateContent { restoredDoc with genKeys := some [bytes "b"] }
      emptyRender) := by
  have hkeeps : ∀ content, blocksOf (parseBlocks content) ≠ [] →
      InOrder (humanText content) (templateContent
        { restoredDoc with content := content, genKeys := some [bytes "b"] } emptyRender) := by
    intro content hblock
    obtain ⟨db', h⟩ := generateFromTemplate_restored content (some [bytes "b"]) emptyRender
    exact (template_keeps_humanText_iff rfl hblock h).1.2 (Or.inl (by simp))
  have hblock := blocksOf_plainDoc
  rw [restoredDoc]
  generalize plainDoc = content at hblock ⊢
  exact hkeeps content hblock

/-- **A generation through a template that loses human text**: the keys are not stored, so the doc
is overwritten with the fresh render. -/
theorem template_overwrites_humanText :
    ¬ ∀ (db db' : Db) (templateId connectorId title newId : Bytes) (r : Render) (now : ℕ)
      (d : DocRecord) (docId content : Bytes),
      (listDocsByService db connectorId).find? (fun d => d.origin != .human) = some d →
      blocksOf (parseBlocks d.content) ≠ [] →
      generateFromTemplate db templateId connectorId title r now newId =
        .ok (db', docId, content) →
      InOrder (humanText d.content) content := by
  intro h
  have hkeeps : ∀ part ∈ humanText plainDoc, part <:+: renderFresh sampleRender.blocks := by
    have hblock := blocksOf_plainDoc
    generalize plainDoc = content at hblock ⊢
    obtain ⟨db', hgen⟩ := generateFromTemplate_restored content none sampleRender
    have hfresh : templateContent { restoredDoc with content := content, genKeys := none }
        sampleRender = renderFresh sampleRender.blocks := by
      rw [templateContent]
    rw [hfresh] at hgen
    intro part hpart
    exact (h _ _ _ _ _ _ _ _ _ _ _ rfl hblock hgen).piece_of_mem hpart
  have hpart : bytes "intro\n" ∈ humanText plainDoc := by
    rw [humanText, parseBlocks_plainDoc, humanParts_text]
    exact List.mem_cons_self
  have hinfix := hkeeps _ hpart
  rw [show sampleRender.blocks = [newBlock (bytes "b") (bytes "gen")] from rfl,
    newBlock_gen] at hinfix
  revert hinfix
  decide

/-! ### An unchanged upstream -/

/-- **An unchanged upstream writes nothing.**  For a doc whose text has no opening marker line, and
a render whose keys a marker can carry, merging the render again into what a sync has stored gives
the same content and the same conflicts; and the next sync of a doc in that state only records its
time, with no new version. -/
theorem unchanged_upstream_writes_nothing {c : Bytes} (prev : List Bytes) {r : Render}
    (htext : ∀ t, .text t ∈ parseBlocks c → ∀ l ∈ linesOf t, isOpen l = false)
    (hkeys : ∀ b ∈ r.blocks, KeyOk b.key) :
    syncContent (syncContent c prev r) r.keys r = syncContent c prev r ∧
      (merge (parseBlocks (syncContent c prev r)) r.keys r.blocks).2 =
        (merge (parseBlocks c) prev r.blocks).2 ∧
      ∀ (db : Db) (d : DocRecord) (now : ℕ) (newId : ℕ → ℕ),
        d.content = syncContent c prev r → d.genKeys = some r.keys →
        ∃ db', syncDoc db d r now newId = .ok db' ∧ db'.versions = db.versions ∧
          db'.docs = (touchDocSynced db d.id r.keys now).docs := by
  have hplain : Plain (keptItems r.blocks (itemsOf c)) := plain_keptItems (plain_itemsOf htext)
  have hstray : NoStrayClose (keptItems r.blocks (itemsOf c)) := (quiet_iff.1 hplain.quiet).2.2
  obtain ⟨items, hi, hq⟩ := quiet_merge (s := ⟨c, prev⟩) hstray fun b hb _ => hkeys b hb
  obtain ⟨hsame, hconf⟩ := merge_again (parseBlocks_renderSegments hi hq)
  refine ⟨hsame, hconf, fun db d now newId hc hk => ?_⟩
  have hbase : baselineKeys d = some r.keys := by simp [baselineKeys, hk]
  have hsame' : syncContent d.content r.keys r = d.content := by rw [hc]; exact hsame
  refine ⟨_, syncDoc_of_same hbase hsame', ?_, ?_⟩
  · exact (raiseConflicts_docs _ _ _ _ _).2
  · exact (raiseConflicts_docs _ _ _ _ _).1

set_option maxRecDepth 100000 in
/-- A sync with one section, twice. -/
theorem unchanged_upstream_sample :
    syncContent (syncContent plainDoc [] sampleRender) sampleRender.keys sampleRender =
      syncContent plainDoc [] sampleRender := by
  refine (unchanged_upstream_writes_nothing (c := plainDoc) [] (r := sampleRender) ?_ ?_).1
  · rw [parseBlocks_plainDoc]
    intro t ht
    simp only [List.mem_cons, Segment.text.injEq, reduceCtorEq, List.not_mem_nil, or_false,
      false_or] at ht
    rcases ht with rfl | rfl
    · decide
    · decide
  · intro b hb
    obtain rfl := List.mem_singleton.1 hb
    decide

end WiseLabz.Doc
