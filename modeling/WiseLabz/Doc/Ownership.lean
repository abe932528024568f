/-
**The ownership of generated docs: syncing a doc and resolving its changes.**

The program's own code for one sync of one doc, for the review changes it raises, and for the
decision of a user about such a change.

Main definitions:

* `Doc.baselineKeys` — the keys a sync takes as those of the previous render;
* `Doc.syncDoc`, `Doc.upgradeLegacyDoc` — **one sync of one doc**;
* `Doc.raiseDocChange`, `Doc.resolveChange` — the review changes.

Main results:

* `Doc.syncDoc_of_same` — what a sync writes when the merge gives the stored content;
* `Doc.syncDoc_spec` — **what a successful sync leaves of the doc it has read**.
-/

import WiseLabz.Store.Docs
import WiseLabz.Doc.SyncRuns

set_option relaxedAutoImplicit false
set_option autoImplicit false

namespace WiseLabz.Doc

open Lib Store

/-! ### Changes -/

/-- A human-edited generated block whose upstream also changed. -/
def changeTypeDocConflict : Bytes := bytes "doc_conflict"

/-- A doc without block markers whose last save was human. -/
def changeTypeDocAdopt : Bytes := bytes "doc_adopt"

/-- The pattern of the doc changes of a type, for a doc and possibly one of its blocks. -/
def docPattern (changeType docId key : Bytes) : Bytes :=
  changeType ++ bytes ":" ++ docId ++ if key = [] then [] else bytes ":" ++ key

/-- `raiseDocChange`: records a proposal unless it is the latest one's, and dismisses that one if it
is still open. -/
def raiseDocChange (db : Db) (d : DocRecord) (changeType : Bytes) (diff : ChangeDiff)
    (id now : ℕ) : Db :=
  let diff := { diff with docId := d.id }
  let pattern := docPattern changeType d.id diff.key
  let create (db : Db) : Db :=
    createChange db
      { id := id, serviceId := d.serviceId, changeType := changeType, diff := some diff,
        status := .new, detectedAt := now, affectedDocIds := [d.id], patternId := pattern }
  match getLatestChangeByPattern db pattern with
  | none => create db
  | some latest =>
      if latest.diff.map (·.genHash) = some diff.genHash then db
      else if latest.status = .new then create (updateChangeStatus db latest.id .dismissed)
      else create db

/-! ### One sync of one doc -/

/-- The keys of the previous render: the stored ones, or those of the blocks of a doc that has
blocks but no stored keys.  A doc with neither predates the block markers. -/
def baselineKeys (d : DocRecord) : Option (List Bytes) :=
  match d.genKeys with
  | some keys => some keys
  | none =>
      if blocksOf (parseBlocks d.content) = [] then none
      else some (blockKeys (blocksOf (parseBlocks d.content)))

/-- A sync's write of the doc it has read; a human save meanwhile wins. -/
def applySync (db : Db) (d : DocRecord) (content : Bytes) (r : Render) (now : ℕ) :
    Except StoreError (Db × Bool) :=
  match applyGeneratedRender db d.id
      { content := content, genKeys := r.keys, expectedVersion := some d.currentVersion,
        author := [], trigger := bytes "sync", origin := none, templateId := none } now with
  | .ok (db, _) => .ok (db, true)
  | .error .versionConflict => .ok (db, false)
  | .error e => .error e

/-- `upgradeLegacyDoc`. -/
def upgradeLegacyDoc (db : Db) (d : DocRecord) (r : Render) (now : ℕ) (newId : ℕ → ℕ) :
    Except StoreError Db :=
  let fresh := renderFresh r.blocks
  match getDocVersions db d.id with
  | v :: _ =>
      if v.author ≠ [] then do
        let db ← setDocOrigin db d.id .human
        return raiseDocChange db d changeTypeDocAdopt
          { docId := d.id, key := [], human := d.content, generated := fresh,
            genHash := hashBody fresh } (newId 0) now
      else (applySync db d fresh r now).map (·.1)
  | [] => (applySync db d fresh r now).map (·.1)

/-- The changes of the conflicts that a merge has found, raised one after the other. -/
def raiseConflicts (db : Db) (d : DocRecord) (conflicts : List Conflict) (now : ℕ)
    (newId : ℕ → ℕ) : Db :=
  conflicts.zipIdx.foldl (fun db c =>
    raiseDocChange db d changeTypeDocConflict
      { docId := d.id, key := c.1.key, human := c.1.human, generated := c.1.generated.body,
        genHash := c.1.generated.hash } (newId c.2) now) db

/-- **`syncDoc`**: merges one render into the doc `d`, as it was read. -/
def syncDoc (db : Db) (d : DocRecord) (r : Render) (now : ℕ) (newId : ℕ → ℕ) :
    Except StoreError Db :=
  match baselineKeys d with
  | none => upgradeLegacyDoc db d r now newId
  | some prev =>
      let (out, conflicts) := merge (parseBlocks d.content) prev r.blocks
      let content := renderSegments out
      if content = d.content then
        .ok (raiseConflicts (touchDocSynced db d.id r.keys now) d conflicts now newId)
      else
        match applySync db d content r now with
        | .error e => .error e
        | .ok (db, false) => .ok db
        | .ok (db, true) => .ok (raiseConflicts db d conflicts now newId)

/-! ### Resolving a change -/

/-- The errors of a resolution. -/
inductive ResolveError
  | notResolvable
  | blockGone
  | store (e : StoreError)
  deriving DecidableEq, Repr

/-- The decision about a change. -/
inductive ResolveAction
  | accept
  | keep
  deriving DecidableEq, Repr

/-- An error of the store, as the engine returns it. -/
def ofStore {α : Type} : Except StoreError α → Except ResolveError α
  | .ok a => .ok a
  | .error e => .error (.store e)

/-- `ResolveChange`: applies a decision to an open doc change and acknowledges it. -/
def resolveChange (db : Db) (c : ChangeRecord) (action : ResolveAction) (userId : Bytes)
    (now : ℕ) : Except ResolveError Db :=
  match c.diff with
  | none => .error .notResolvable
  | some diff =>
      if c.status ≠ .new ∨
          (c.changeType ≠ changeTypeDocConflict ∧ c.changeType ≠ changeTypeDocAdopt) then
        .error .notResolvable
      else
        match getDoc db diff.docId with
        | none => .error (.store .notFound)
        | some d => do
            let write : Except ResolveError Db :=
              if c.changeType = changeTypeDocAdopt then
                match action with
                | .keep => .ok db
                | .accept =>
                    (ofStore (applyGeneratedRender db d.id
                      { content := diff.generated
                        genKeys := blockKeys (blocksOf (parseBlocks diff.generated))
                        expectedVersion := some d.currentVersion, author := userId
                        trigger := bytes "sync-resolve", origin := some .generated
                        templateId := none } now)).map (·.1)
              else
                let segs := parseBlocks d.content
                match blockIndex segs diff.key, action with
                | none, _ => .error .blockGone
                | some i, .accept =>
                    let content := renderSegments (segs.set i (.block (newBlock diff.key diff.generated)))
                    (ofStore (updateDocWithVersion db d.id content (some d.currentVersion) userId
                      (bytes "sync-resolve") now)).map (·.1)
                | some i, .keep =>
                    let body := (segs[i]?.bind Segment.block?).elim [] (·.body)
                    let content := renderSegments (segs.set i (.text body))
                    (ofStore (updateDocWithVersion db d.id content (some d.currentVersion) userId
                      (bytes "sync-resolve") now)).map (·.1)
            let db ← write
            return updateChangeStatus db c.id .acknowledged

/-! ### What a sync writes -/

theorem syncDoc_of_same {db : Db} {d : DocRecord} {r : Render} {now : ℕ} {newId : ℕ → ℕ}
    {prev : List Bytes} (hp : baselineKeys d = some prev)
    (hc : syncContent d.content prev r = d.content) :
    syncDoc db d r now newId = .ok (raiseConflicts (touchDocSynced db d.id r.keys now) d
      (merge (parseBlocks d.content) prev r.blocks).2 now newId) := by
  rw [syncContent] at hc
  simp [syncDoc, hp, hc]

@[simp] theorem raiseDocChange_docs (db : Db) (d : DocRecord) (changeType : Bytes)
    (diff : ChangeDiff) (id now : ℕ) :
    (raiseDocChange db d changeType diff id now).docs = db.docs ∧
      (raiseDocChange db d changeType diff id now).versions = db.versions := by
  unfold raiseDocChange
  dsimp only
  split
  · exact ⟨rfl, rfl⟩
  · split
    · exact ⟨rfl, rfl⟩
    · split <;> exact ⟨rfl, rfl⟩

/-- Raising changes writes neither docs nor versions. -/
theorem raiseConflicts_docs (db : Db) (d : DocRecord) (conflicts : List Conflict) (now : ℕ)
    (newId : ℕ → ℕ) :
    (raiseConflicts db d conflicts now newId).docs = db.docs ∧
      (raiseConflicts db d conflicts now newId).versions = db.versions := by
  unfold raiseConflicts
  induction conflicts.zipIdx generalizing db with
  | nil => exact ⟨rfl, rfl⟩
  | cons c cs ih =>
      obtain ⟨h₁, h₂⟩ := raiseDocChange_docs db d changeTypeDocConflict
        { docId := d.id, key := c.1.key, human := c.1.human, generated := c.1.generated.body,
          genHash := c.1.generated.hash } (newId c.2) now
      rw [List.foldl_cons, (ih _).1, (ih _).2, h₁, h₂]
      exact ⟨rfl, rfl⟩

/-- Raising changes leaves what is read back of a doc. -/
theorem getDoc_congr {db db' : Db} (h : db'.docs = db.docs) (id : Bytes) :
    getDoc db' id = getDoc db id := by rw [getDoc, getDoc, h]

/-- The newest version of the doc was saved by a user. -/
def HumanLatest (db : Db) (id : Bytes) : Prop :=
  ∃ v ∈ (getDocVersions db id).head?, v.author ≠ []

instance (db : Db) (id : Bytes) : Decidable (HumanLatest db id) :=
  inferInstanceAs (Decidable (∃ v ∈ (getDocVersions db id).head?, v.author ≠ []))

/-- The write of a sync to the doc it has just read. -/
theorem applySync_spec {db db' : Db} {id content : Bytes} {d : DocRecord} {r : Render} {now : ℕ}
    {wrote : Bool} (hu : UniqueIds db) (hd : getDoc db id = some d)
    (h : applySync db d content r now = .ok (db', wrote)) :
    wrote = true ∧ UniqueIds db' ∧
      (∃ d', getDoc db' id = some d' ∧ d'.content = content ∧ d'.genKeys = some r.keys ∧
        d'.origin = d.origin ∧ d'.currentVersion = d.currentVersion + 1) ∧
      db'.versions = db.versions ++ [⟨id, d.currentVersion + 1, content, [], bytes "sync"⟩] := by
  obtain rfl := (getDoc_eq_some hd).2.1
  unfold applySync at h
  split at h
  · rename_i db₁ rev happly
    obtain ⟨d₀, hd₀, hd', hv, hu'⟩ := applyGeneratedRender_getDoc hu happly
    obtain rfl : d₀ = d := Option.some.inj (hd₀.symm.trans hd)
    simp only [Except.ok.injEq, Prod.mk.injEq] at h
    obtain ⟨rfl, rfl⟩ := h
    exact ⟨rfl, hu', ⟨_, hd', rfl, rfl, rfl, rfl⟩, hv⟩
  · rename_i hconf
    exact (applyGeneratedRender_ne_conflict hu hd rfl hconf).elim
  · simp at h

/-- **What a successful sync leaves of the doc it has read.**  With baseline keys, the doc has the
merged content and the keys of the render.  Without, it goes to its human as it is when a user has
saved it last, and is rendered afresh otherwise. -/
theorem syncDoc_spec {db db' : Db} {id : Bytes} {d : DocRecord} {r : Render} {now : ℕ}
    {newId : ℕ → ℕ} (hu : UniqueIds db) (hd : getDoc db id = some d)
    (h : syncDoc db d r now newId = .ok db') :
    UniqueIds db' ∧ ∃ d', getDoc db' id = some d' ∧
      ((∃ prev, baselineKeys d = some prev ∧ d'.content = syncContent d.content prev r ∧
          d'.genKeys = some r.keys ∧ d'.origin = d.origin) ∨
        (baselineKeys d = none ∧ HumanLatest db id ∧ d'.content = d.content ∧
          d'.genKeys = d.genKeys ∧ d'.origin = .human ∧ db'.versions = db.versions) ∨
        (baselineKeys d = none ∧ ¬ HumanLatest db id ∧ d'.content = renderFresh r.blocks ∧
          d'.genKeys = some r.keys ∧ d'.origin = d.origin)) ∧
      ((d'.currentVersion = d.currentVersion ∧ db'.versions = db.versions) ∨
        (d'.currentVersion = d.currentVersion + 1 ∧ ∃ v : DocVersionRecord,
          v.rev = d.currentVersion + 1 ∧ db'.versions = db.versions ++ [v])) := by
  obtain ⟨hm, hid, hdel⟩ := getDoc_eq_some hd
  have hmapId : ∀ f : DocRecord → DocRecord, (∀ d, (f d).id = d.id) →
      (∀ d, (f d).deletedAt = d.deletedAt) →
      getDoc (updateDocs db (fun d => d.id == id) f) id = some (f d) := by
    intro f hf hf'
    rw [getDoc_updateDocs hf hf', hd]
    simp [hid]
  unfold syncDoc at h
  split at h
  · -- a doc from before the block markers
    rename_i hbase
    have hwrite : ∀ {db' : Db} {wrote : Bool}, ¬ HumanLatest db id →
        applySync db d (renderFresh r.blocks) r now = .ok (db', wrote) →
        UniqueIds db' ∧ ∃ d', getDoc db' id = some d' ∧
          (baselineKeys d = none ∧ ¬ HumanLatest db id ∧ d'.content = renderFresh r.blocks ∧
            d'.genKeys = some r.keys ∧ d'.origin = d.origin) ∧
          (d'.currentVersion = d.currentVersion + 1 ∧ ∃ v : DocVersionRecord,
            v.rev = d.currentVersion + 1 ∧ db'.versions = db.versions ++ [v]) := by
      intro db' wrote hlatest happly
      obtain ⟨-, hu', ⟨d', hd', hc, hk, ho, hcv⟩, hv⟩ := applySync_spec hu hd happly
      exact ⟨hu', d', hd', ⟨hbase, hlatest, hc, hk, ho⟩, hcv, _, rfl, hv⟩
    unfold upgradeLegacyDoc at h
    dsimp only at h
    split at h
    · rename_i v vs hvs
      rw [hid] at hvs
      split at h
      · rename_i hauthor
        obtain ⟨db₁, horigin, hret⟩ := bind_eq_ok.1 h
        rw [pure_eq_ok] at hret
        unfold setDocOrigin at horigin
        split at horigin
        · obtain rfl := Except.ok.inj horigin
          obtain ⟨hdocs, hvers⟩ := raiseDocChange_docs
            (updateDocs db (fun d' => d'.id == d.id) (DocRecord.withOrigin .human)) d
            changeTypeDocAdopt
            { docId := d.id, key := [], human := d.content, generated := renderFresh r.blocks,
              genHash := hashBody (renderFresh r.blocks) } (newId 0) now
          rw [hret] at hdocs hvers
          refine ⟨?_, d.withOrigin .human, ?_, Or.inr (Or.inl ?_), Or.inl ⟨rfl, hvers⟩⟩
          · rw [UniqueIds, hdocs]
            exact hu.updateDocs _ fun _ => rfl
          · rw [getDoc_congr hdocs, hid]
            exact hmapId (DocRecord.withOrigin .human) (fun _ => rfl) (fun _ => rfl)
          · exact ⟨hbase, ⟨v, by simp [hvs], hauthor⟩, rfl, rfl, rfl, hvers⟩
        · simp at horigin
      · rename_i hauthor
        have hnot : ¬ HumanLatest db id := by
          simpa [HumanLatest, hvs] using hauthor
        cases happly : applySync db d (renderFresh r.blocks) r now with
        | error e => simp [happly, Except.map] at h
        | ok p =>
            simp only [happly, Except.map, Except.ok.injEq] at h
            subst h
            obtain ⟨hu', d', hd', hcase, hcv⟩ := hwrite hnot happly
            exact ⟨hu', d', hd', Or.inr (Or.inr hcase), Or.inr hcv⟩
    · rename_i hvs
      rw [hid] at hvs
      have hnot : ¬ HumanLatest db id := by simp [HumanLatest, hvs]
      cases happly : applySync db d (renderFresh r.blocks) r now with
      | error e => simp [happly, Except.map] at h
      | ok p =>
          simp only [happly, Except.map, Except.ok.injEq] at h
          subst h
          obtain ⟨hu', d', hd', hcase, hcv⟩ := hwrite hnot happly
          exact ⟨hu', d', hd', Or.inr (Or.inr hcase), Or.inr hcv⟩
  · rename_i prev hbase
    dsimp only at h
    split at h
    · -- the merge gives the stored content
      rename_i hsame
      obtain rfl := Except.ok.inj h
      obtain ⟨hdocs, hvers⟩ := raiseConflicts_docs (touchDocSynced db d.id r.keys now) d
        (merge (parseBlocks d.content) prev r.blocks).2 now newId
      refine ⟨?_, d.touched r.keys now, ?_,
        Or.inl ⟨prev, hbase, hsame.symm, rfl, rfl⟩, Or.inl ⟨rfl, hvers⟩⟩
      · rw [UniqueIds, hdocs]
        exact hu.updateDocs _ fun _ => rfl
      · rw [getDoc_congr hdocs, touchDocSynced, hid]
        exact hmapId (DocRecord.touched r.keys now) (fun _ => rfl) (fun _ => rfl)
    · split at h
      · simp at h
      · rename_i db₁ happly
        exact absurd (applySync_spec hu hd happly).1 (by simp)
      · rename_i db₁ happly
        obtain ⟨-, hu', ⟨d', hd', hc, hk, ho, hcv⟩, hv⟩ := applySync_spec hu hd happly
        obtain rfl := Except.ok.inj h
        obtain ⟨hdocs, hvers⟩ := raiseConflicts_docs db₁ d
          (merge (parseBlocks d.content) prev r.blocks).2 now newId
        refine ⟨?_, d', ?_, Or.inl ⟨prev, hbase, hc, hk, ho⟩,
          Or.inr ⟨hcv, ⟨id, d.currentVersion + 1,
            renderSegments (merge (parseBlocks d.content) prev r.blocks).1, [], bytes "sync"⟩,
            rfl, ?_⟩⟩
        · rw [UniqueIds, hdocs]
          exact hu'
        · rw [getDoc_congr hdocs, hd']
        · rw [hvers, hv]

end WiseLabz.Doc
