/-
**No save is silently overwritten, in turn.**

While no content is rewritten under its version, a version comparison tells whether a write has come
since the reading.  The writes that compare versions then replace what they are based on, and the
others do as long as nobody has come between.  These are exactly the steps that are as claimed.

Main definitions:

* `Doc.SaveInv` — **the invariant**: what every operation knows of is what is in the doc, unless it
  is overtaken;
* `Doc.SaveEffect` — what a call does to the doc, and which calls of the kind meet the condition.

Main results:

* `Doc.SavePlace.step_effect` — what the calls of an operation do;
* `Doc.SaveInv.next` — the invariant is kept;
* `Doc.savesKept_iff` — **a step is as claimed exactly when it is in turn**;
* `Doc.saves_kept_iff` — the same of every step of a run;
* `Doc.save_overwritten` — a run in which a save is lost.
-/

import WiseLabz.Lib.Threads
import WiseLabz.Doc.Saves

set_option relaxedAutoImplicit false
set_option autoImplicit false

namespace WiseLabz.Doc

open Lib Store

/-! ### What is tracked -/

section Tracked

variable {db db' : Db} {id : Bytes} {d : DocRecord}

theorem cellOf_of_getDoc (hd : getDoc db id = some d) : cellOf db id = some (docCell d) := by
  rw [cellOf, hd, Option.map_some]

/-- What a reader sees is tracked. -/
theorem cellOf_of_tracked (h : tracked db' id = tracked db id) : cellOf db' id = cellOf db id := by
  have hdoc := congrArg (fun x => x.doc.map fun s => Versioned.mk s.currentVersion s.content) h
  simp only [tracked, Option.map_map] at hdoc
  exact hdoc

/-- Calls on other tables. -/
theorem tracked_of_eq (hdocs : db'.docs = db.docs) (hversions : db'.versions = db.versions)
    (hproposals : db'.proposals = db.proposals) : tracked db' id = tracked db id := by
  rw [tracked, tracked, getDoc, getDoc, hdocs, hversions, hproposals]

theorem uniqueIds_of_eq (hdocs : db'.docs = db.docs) (hu : UniqueIds db) : UniqueIds db' := by
  rwa [UniqueIds, hdocs]

/-- **What a call does to the doc**; `turn` says whether it meets the condition. -/
inductive SaveEffect (id : Bytes) (db : Db) (d : DocRecord) (overtaken turn : Bool) (db' : Db) : Prop
  /-- Nothing that is tracked. -/
  | quiet (same : tracked db' id = tracked db id) (hturn : turn = true)
  /-- Not the content. -/
  | booked (cell : cellOf db' id = cellOf db id) (differs : tracked db' id ≠ tracked db id)
      (hturn : turn = !overtaken)
  /-- The next version. -/
  | wrote (cell : Versioned Bytes) (now : cellOf db' id = some cell)
      (next : cell.version = d.currentVersion + 1) (hturn : turn = !overtaken)
  /-- Another content under the same version. -/
  | rewrote (value : Bytes) (now : cellOf db' id = some ⟨d.currentVersion, value⟩)
      (differs : value ≠ d.content) (hturn : turn = false)

/-- An update of the row that leaves version and content. -/
theorem updateDocs_effect (hd : getDoc db id = some d) {p : DocRecord → Bool}
    {f : DocRecord → DocRecord} (hid : ∀ d, (f d).id = d.id)
    (hdel : ∀ d, (f d).deletedAt = d.deletedAt) (hp : p d = true) (hcell : docCell (f d) = docCell d)
    {same : Bool} (hsame : savedDoc (f d) = savedDoc d ↔ same = true) (overtaken : Bool) :
    SaveEffect id db d overtaken (!overtaken || same) (updateDocs db p f) := by
  have hd' : getDoc (updateDocs db p f) id = some (f d) := by
    rw [getDoc_updateDocs hid hdel, hd, Option.map_some, if_pos hp]
  have hdoc : (tracked (updateDocs db p f) id).doc = some (savedDoc (f d)) := by
    rw [tracked, hd', Option.map_some]
  have hdoc₀ : (tracked db id).doc = some (savedDoc d) := by
    rw [tracked, hd, Option.map_some]
  cases hs : same with
  | true =>
      refine .quiet ?_ (Bool.or_true _)
      rw [tracked, tracked, hd', hd, Option.map_some, Option.map_some, hsame.2 hs]
      rfl
  | false =>
      refine .booked ?_ ?_ (Bool.or_false _)
      · rw [cellOf_of_getDoc hd', cellOf_of_getDoc hd, hcell]
      · intro h
        have hdocs := congrArg Tracked.doc h
        rw [hdoc, hdoc₀, Option.some.injEq, hsame] at hdocs
        rw [hs] at hdocs
        cases hdocs

/-- **A versioned update** that succeeds has found its version. -/
theorem updateDocWithVersion_cell (hu : UniqueIds db) (hd : getDoc db id = some d)
    {content author trigger : Bytes} {v now rev : ℕ}
    (h : updateDocWithVersion db id content (some v) author trigger now = .ok (db', rev)) :
    UniqueIds db' ∧ v = d.currentVersion ∧
      cellOf db' id = some ⟨d.currentVersion + 1, content⟩ := by
  obtain ⟨d₁, hd₁, hd', -, hu'⟩ := updateDocWithVersion_getDoc hu h
  obtain ⟨db₁, hcontent, -⟩ := updateDocWithVersion_eq_ok.1 h
  obtain ⟨d₂, hd₂, -, hexpected, -⟩ := updateDocContent_getDoc hu hcontent
  obtain rfl := Option.some.inj (hd.symm.trans hd₁)
  obtain rfl := Option.some.inj (hd.symm.trans hd₂)
  refine ⟨hu', ?_, cellOf_of_getDoc hd'⟩
  simpa using hexpected

theorem applyGeneratedRender_cell (hu : UniqueIds db) (hd : getDoc db id = some d)
    {r : GeneratedRender} {v now rev : ℕ} (hv : r.expectedVersion = some v)
    (h : applyGeneratedRender db id r now = .ok (db', rev)) :
    UniqueIds db' ∧ v = d.currentVersion ∧
      cellOf db' id = some ⟨d.currentVersion + 1, r.content⟩ := by
  obtain ⟨d₁, hd₁, hd', -, hu'⟩ := applyGeneratedRender_getDoc hu h
  obtain ⟨db₁, db₂, hcontent, -⟩ := applyGeneratedRender_eq_ok.1 h
  obtain ⟨d₂, hd₂, -, hexpected, -⟩ := updateDocContent_getDoc hu hcontent
  obtain rfl := Option.some.inj (hd.symm.trans hd₁)
  obtain rfl := Option.some.inj (hd.symm.trans hd₂)
  refine ⟨hu', ?_, cellOf_of_getDoc hd'⟩
  rw [hv] at hexpected
  simpa using hexpected

/-- **An approved proposal** that succeeds has found its base version. -/
theorem approveDocEditProposal_cell (hu : UniqueIds db) (hd : getDoc db id = some d)
    {proposalId reviewerId : Bytes} {p : DocEditProposal} {now rev : ℕ}
    (hp : (db.proposals.find? fun p => p.id == proposalId && p.status == .pending) = some p)
    (hdoc : p.docId = id)
    (h : approveDocEditProposal db proposalId reviewerId now = .ok (db', rev)) :
    UniqueIds db' ∧ p.baseVersion = d.currentVersion ∧
      cellOf db' id = some ⟨d.currentVersion + 1, p.content⟩ := by
  subst hdoc
  unfold approveDocEditProposal at h
  rw [hp] at h
  simp only [bind_eq_ok, pure_eq_ok, Prod.exists, Prod.mk.injEq] at h
  obtain ⟨db₁, rev₁, hcontent, db₂, hversion, rfl, rfl⟩ := h
  have hu' : ∀ proposals, UniqueIds { db with proposals := proposals } := fun _ => hu
  obtain ⟨d₁, hd₁, -, hexpected, hd'⟩ := updateDocContent_getDoc (hu' _) hcontent
  obtain rfl := Option.some.inj (hd.symm.trans hd₁)
  have hu₁ := updateDocContent_unique (hu' _) hcontent
  obtain ⟨-, -, rfl⟩ := createDocVersion_eq_ok.1 hversion
  exact ⟨hu₁, by simpa using hexpected, cellOf_of_getDoc hd'⟩

end Tracked

/-! ### What the operations know -/

/-- What the generator knows of. -/
def LabCallOk (id : Bytes) (held : Held Bytes) : LabCall → Prop
  | .found docId _ _ | .changed docId _ _ | .updated docId _ _ | .read docId _ _ _
  | .versioned docId _ => docId = id
  | .unchanged docId _ cleaned expectedVersion =>
      docId = id ∧ expectedVersion = held.read.version ∧
        ∀ clean, cleaned = some clean → clean ≠ held.read.value
  | .returned | .failed => True
  | .rendered .. | .missing .. | .created .. => False

/-- What an operation knows of, before a write that compares versions. -/
def SavePlace.Ok (id : Bytes) (d : DocRecord) (held : Held Bytes) : SavePlace → Prop
  | .listed _ | .legacy _ | .rendering .. | .templating .. | .resolving .. => held.read = docCell d
  | .lab call => LabCallOk id held call
  | _ => True

structure SaveOp.Ok (id : Bytes) (cell : Versioned Bytes) (op : SaveOp) : Prop where
  doc : op.doc.id = id
  held : op.held.Ok cell
  place : op.place.Ok id op.doc op.held

/-- **The invariant.** -/
structure SaveInv (id : Bytes) (s : SaveState) (d : DocRecord) : Prop where
  unique : UniqueIds s.db
  doc : getDoc s.db id = some d
  shown : Shown (docCell d) s.shown
  ops : ∀ op ∈ s.ops, op.Ok id (docCell d)

/-- The place does not know whether the operation is overtaken. -/
theorem SavePlace.Ok.of_read {id : Bytes} {d : DocRecord} {held held' : Held Bytes}
    {place : SavePlace} (h : place.Ok id d held) (hread : held'.read = held.read) :
    place.Ok id d held' := by
  cases place with
  | lab call => cases call <;> simp only [SavePlace.Ok, LabCallOk, hread] at h ⊢ <;> exact h
  | _ => simp only [SavePlace.Ok, hread] at h ⊢ <;> exact h

theorem SavePlace.Ok.afterFailure {id : Bytes} {d : DocRecord} {held : Held Bytes}
    {place : SavePlace} (h : place.Ok id d held) : place.afterFailure.Ok id d held := by
  cases place with
  | lab call =>
      cases call with
      | read => exact h
      | _ => trivial
  | _ => trivial

theorem raiseAll_ok (id : Bytes) (d : DocRecord) (held : Held Bytes) (changeType : Bytes)
    (diffs : List ChangeDiff) : (raiseAll changeType diffs).Ok id d held := by
  cases diffs <;> trivial

/-- Between the reading of a sync and its first call. -/
theorem syncPlace_ok {id : Bytes} {d : DocRecord} {held : Held Bytes}
    (h : held.read = docCell d) (r : Render) : (syncPlace d r).Ok id d held := by
  unfold syncPlace
  split
  · exact h
  · dsimp only
    split
    · trivial
    · exact h

/-! ### What the calls have found -/

theorem applySync_eq_true {db db' : Db} {d : DocRecord} {content : Bytes} {r : Render} {now : ℕ}
    (h : applySync db d content r now = .ok (db', true)) :
    ∃ rev, applyGeneratedRender db d.id
      { content := content, genKeys := r.keys, expectedVersion := some d.currentVersion
        author := [], trigger := bytes "sync", origin := none, templateId := none } now =
      .ok (db', rev) := by
  rw [applySync] at h
  split at h
  · next db₁ rev hrender =>
      obtain ⟨rfl, -⟩ := Prod.mk.inj (Except.ok.inj h)
      exact ⟨rev, hrender⟩
  · cases h
  · cases h

theorem applySync_eq_false {db db' : Db} {d : DocRecord} {content : Bytes} {r : Render} {now : ℕ}
    (h : applySync db d content r now = .ok (db', false)) : db' = db := by
  rw [applySync] at h
  split at h
  · cases h
  · exact (Prod.mk.inj (Except.ok.inj h)).1.symm
  · cases h

/-- **What a resolution has written**, if anything. -/
theorem resolveWrite_eq_ok {db db' : Db} {d : DocRecord} {c : ChangeRecord} {diff : ChangeDiff}
    {action : ResolveAction} {userId : Bytes} {now : ℕ}
    (h : resolveWrite db d c diff action userId now = .ok db') :
    db' = db ∨
      (∃ (r : GeneratedRender) (rev : ℕ), r.expectedVersion = some d.currentVersion ∧
        applyGeneratedRender db d.id r now = .ok (db', rev)) ∨
      ∃ (content : Bytes) (rev : ℕ), updateDocWithVersion db d.id content (some d.currentVersion)
        userId (bytes "sync-resolve") now = .ok (db', rev) := by
  unfold resolveWrite at h
  split at h
  · split at h
    · exact Or.inl (Except.ok.inj h).symm
    · obtain ⟨rev, hrender⟩ := ofStore_map_eq_ok h
      exact Or.inr (Or.inl ⟨_, rev, rfl, hrender⟩)
  · dsimp only at h
    split at h
    · cases h
    · obtain ⟨rev, hsave⟩ := ofStore_map_eq_ok h
      exact Or.inr (Or.inr ⟨_, rev, hsave⟩)
    · obtain ⟨rev, hsave⟩ := ofStore_map_eq_ok h
      exact Or.inr (Or.inr ⟨_, rev, hsave⟩)

/-! ### What a call does -/

section Calls

variable {db : Db} {id : Bytes} {d : DocRecord}

theorem SaveEffect.of_eq {overtaken : Bool} {db' : Db} (hdocs : db'.docs = db.docs)
    (hversions : db'.versions = db.versions) (hproposals : db'.proposals = db.proposals) :
    SaveEffect id db d overtaken true db' :=
  .quiet (tracked_of_eq hdocs hversions hproposals) rfl

/-- A write that compares versions goes through only if nobody has come since the reading. -/
theorem not_overtaken_of_version {op : SaveOp} (hop : op.Ok id (docCell d))
    (hread : op.held.read = docCell op.doc) (hv : op.doc.currentVersion = d.currentVersion) :
    op.held.overtaken = false := by
  by_contra h
  refine hop.held.overtaken_iff.1 (by simpa using h) ?_
  rw [hread]
  exact hv

/-- A write that compares versions. -/
theorem SaveEffect.of_version {op : SaveOp} (hop : op.Ok id (docCell d))
    (hread : op.held.read = docCell op.doc) (hv : op.doc.currentVersion = d.currentVersion)
    {content : Bytes} {db' : Db} (hcell : cellOf db' id = some ⟨d.currentVersion + 1, content⟩) :
    SaveEffect id db d op.held.overtaken true db' := by
  refine .wrote _ hcell rfl ?_
  rw [not_overtaken_of_version hop hread hv]
  rfl

/-- The fingerprint alone. -/
theorem setFingerprint_effect (hu : UniqueIds db) (hd : getDoc db id = some d)
    (fingerprint : Bytes) (expectedVersion : ℕ) (overtaken : Bool) :
    ∃ db', setDocTopologyFingerprint db id fingerprint none expectedVersion = .ok db' ∧
      UniqueIds db' ∧
      SaveEffect id db d overtaken (!overtaken || d.topologyFingerprint = fingerprint) db' := by
  obtain ⟨hmem, hid, hdel⟩ := getDoc_eq_some hd
  have htakes : DocRecord.takesFingerprint id none expectedVersion d = true := by
    simp [DocRecord.takesFingerprint, DocRecord.isActive, hid, hdel]
  refine ⟨_, if_pos (List.any_eq_true.2 ⟨d, hmem, htakes⟩), hu.updateDocs _ fun _ => rfl, ?_⟩
  refine updateDocs_effect (f := DocRecord.withFingerprint fingerprint none) hd (fun _ => rfl)
    (fun _ => rfl) htakes rfl ?_ overtaken
  simp [savedDoc, DocRecord.withFingerprint, eq_comm]

/-- The content in place, if the version is the one that was read. -/
theorem rewrite_effect (hu : UniqueIds db) (hd : getDoc db id = some d) (fingerprint : Bytes)
    {clean : Bytes} {expectedVersion : ℕ} (overtaken : Bool)
    (hclean : expectedVersion = d.currentVersion → clean ≠ d.content) :
    (d.currentVersion = expectedVersion ∧ ∃ db',
      setDocTopologyFingerprint db id fingerprint (some clean) expectedVersion = .ok db' ∧
      UniqueIds db' ∧ SaveEffect id db d overtaken false db') ∨
    (d.currentVersion ≠ expectedVersion ∧
      setDocTopologyFingerprint db id fingerprint (some clean) expectedVersion =
        .error .versionConflict) := by
  obtain ⟨hmem, hid, hdel⟩ := getDoc_eq_some hd
  by_cases hv : d.currentVersion = expectedVersion
  · have htakes : DocRecord.takesFingerprint id (some clean) expectedVersion d = true := by
      simp [DocRecord.takesFingerprint, DocRecord.isActive, hid, hdel, hv]
    refine Or.inl ⟨hv, _, if_pos (List.any_eq_true.2 ⟨d, hmem, htakes⟩),
      hu.updateDocs _ fun _ => rfl, .rewrote clean ?_ (hclean hv.symm) rfl⟩
    rw [cellOf, getDoc_updateDocs (f := DocRecord.withFingerprint fingerprint (some clean))
      (fun _ => rfl) (fun _ => rfl), hd, Option.map_some, Option.map_some, if_pos htakes]
    rfl
  · refine Or.inr ⟨hv, ?_⟩
    have hnone : ¬db.docs.any (DocRecord.takesFingerprint id (some clean) expectedVersion) := by
      rw [List.any_eq_true]
      rintro ⟨d', hd', htakes⟩
      simp only [DocRecord.takesFingerprint, DocRecord.isActive, Option.isNone_some,
        Bool.false_or, Bool.and_eq_true, beq_iff_eq] at htakes
      rw [hu.eq_of_id hd' hmem (htakes.1.1.trans hid.symm)] at htakes
      exact hv htakes.2
    rw [setDocTopologyFingerprint, if_neg hnone, if_pos (by rw [hd]; rfl)]

/-- The insert of a version row. -/
theorem insertVersion_effect (hu : UniqueIds db) (hd : getDoc db id = some d) (content : Bytes)
    (rev : ℕ) (overtaken : Bool) :
    UniqueIds (insertVersion db (topologyVersion id content rev)) ∧
      SaveEffect id db d overtaken
        (!overtaken || db.versions.any fun v => v.docId == d.id && v.rev == rev)
        (insertVersion db (topologyVersion id content rev)) := by
  obtain ⟨hmem, hid, -⟩ := getDoc_eq_some hd
  cases hrow : db.versions.any fun v => v.docId == d.id && v.rev == rev with
  | true =>
      have herror : insertVersion db (topologyVersion id content rev) = db := by
        rw [insertVersion, createDocVersion, if_pos]
        left
        rw [← hid]
        exact hrow
      rw [herror]
      exact ⟨hu, .quiet rfl (Bool.or_true _)⟩
  | false =>
      have hinsert : insertVersion db (topologyVersion id content rev) =
          { db with versions := db.versions ++ [topologyVersion id content rev] } := by
        rw [insertVersion, createDocVersion, if_neg]
        rw [not_or, not_not]
        refine ⟨?_, List.any_eq_true.2 ⟨d, hmem, beq_iff_eq.2 hid⟩⟩
        rw [← hid, Bool.not_eq_true]
        exact hrow
      rw [hinsert]
      refine ⟨hu, .booked rfl ?_ (Bool.or_false _)⟩
      intro h
      have hlength := congrArg (fun x => x.versions.length) h
      simp [tracked, topologyVersion] at hlength

/-- **What a call of the generator does.** -/
theorem labStep_saveEffect (hu : UniqueIds db) (hd : getDoc db id = some d) {held : Held Bytes}
    (hheld : held.Ok (docCell d)) {call : LabCall} (hcall : LabCallOk id held call) (now : ℕ) :
    UniqueIds (labStep db call [] now).1 ∧
      SaveEffect id db d held.overtaken ((SavePlace.lab call).inTurn db d held.overtaken)
        (labStep db call [] now).1 := by
  have hsame : UniqueIds db ∧ SaveEffect id db d held.overtaken true db := ⟨hu, .of_eq rfl rfl rfl⟩
  cases call with
  | found docId content fingerprint =>
      unfold labStep
      dsimp only
      split
      · exact hsame
      · next current _ =>
          split
          · generalize (if stripTopologyMarker current.content = current.content then none
              else some (stripTopologyMarker current.content)) = cleaned
            split <;> exact hsame
          · exact hsame
  | unchanged docId fingerprint cleaned expectedVersion =>
      obtain ⟨rfl, hversion, hcleaned⟩ := hcall
      unfold labStep
      dsimp only
      cases cleaned with
      | none =>
          obtain ⟨db', hset, hu', heffect⟩ :=
            setFingerprint_effect hu hd fingerprint expectedVersion held.overtaken
          rw [hset]
          exact ⟨hu', heffect⟩
      | some clean =>
          have hclean : expectedVersion = d.currentVersion → clean ≠ d.content := by
            intro hv
            have hread : held.read = docCell d := hheld.read_eq (hversion.symm.trans hv)
            have hne := hcleaned clean rfl
            rw [hread] at hne
            exact hne
          rcases rewrite_effect hu hd fingerprint held.overtaken hclean with
            ⟨hv, db', hset, hu', heffect⟩ | ⟨hv, hset⟩
          · rw [hset, SavePlace.inTurn, decide_eq_false (not_not.2 hv)]
            exact ⟨hu', heffect⟩
          · rw [hset, SavePlace.inTurn, decide_eq_true hv]
            exact hsame
  | changed docId content fingerprint =>
      obtain rfl : docId = id := hcall
      obtain ⟨db', hupdate⟩ := updateDocContent_of_getDoc content now hu hd (Or.inl rfl)
      obtain ⟨d₁, hd₁, -, -, hd'⟩ := updateDocContent_getDoc hu hupdate
      obtain rfl := Option.some.inj (hd.symm.trans hd₁)
      unfold labStep
      dsimp only
      rw [hupdate]
      exact ⟨updateDocContent_unique hu hupdate, .wrote _ (cellOf_of_getDoc hd') rfl rfl⟩
  | updated docId content fingerprint =>
      unfold labStep
      dsimp only
      split <;> exact hsame
  | read docId content fingerprint rev =>
      obtain rfl : docId = id := hcall
      exact insertVersion_effect hu hd content rev held.overtaken
  | versioned docId fingerprint =>
      obtain rfl : docId = id := hcall
      obtain ⟨db', hset, hu', heffect⟩ := setFingerprint_effect hu hd fingerprint 0 held.overtaken
      unfold labStep
      dsimp only
      rw [hset]
      exact ⟨hu', heffect⟩
  | returned | failed => exact hsame
  | rendered | missing | created => cases hcall

/-- **What the next call of an operation does.** -/
theorem SavePlace.step_effect (hu : UniqueIds db) (hd : getDoc db id = some d) {op : SaveOp}
    (hop : op.Ok id (docCell d)) (c : SaveChance) :
    UniqueIds (op.place.step db op.doc c).1 ∧
      SaveEffect id db d op.held.overtaken (op.place.inTurn db d op.held.overtaken)
        (op.place.step db op.doc c).1 := by
  obtain ⟨hmem, hid, hdel⟩ := getDoc_eq_some hd
  have hplace := hop.place
  have hdoc := hop.doc
  have hsame : UniqueIds db ∧ SaveEffect id db d op.held.overtaken true db :=
    ⟨hu, .of_eq rfl rfl rfl⟩
  have hchanges : ∀ db' : Db, db'.docs = db.docs → db'.versions = db.versions →
      db'.proposals = db.proposals →
      UniqueIds db' ∧ SaveEffect id db d op.held.overtaken true db' :=
    fun db' hdocs hversions hproposals =>
      ⟨uniqueIds_of_eq hdocs hu, .of_eq hdocs hversions hproposals⟩
  cases hp : op.place with
  | listed r => exact hsame
  | legacy r =>
      unfold SavePlace.step
      dsimp only
      split <;> exact hsame
  | adopting r =>
      have hany : db.docs.any (fun d => d.id == id) = true :=
        List.any_eq_true.2 ⟨d, hmem, beq_iff_eq.2 hid⟩
      unfold SavePlace.step
      dsimp only
      rw [hdoc, setDocOrigin, if_pos hany]
      refine ⟨hu.updateDocs _ fun _ => rfl, ?_⟩
      refine updateDocs_effect (f := DocRecord.withOrigin .human) (p := fun d => d.id == id) hd
        (fun _ => rfl) (fun _ => rfl) (beq_iff_eq.2 hid) rfl ?_ _
      simp [savedDoc, DocRecord.withOrigin, eq_comm]
  | touching r conflicts =>
      unfold SavePlace.step
      dsimp only
      rw [hdoc, touchDocSynced]
      refine ⟨hu.updateDocs _ fun _ => rfl, ?_⟩
      refine updateDocs_effect (f := DocRecord.touched r.keys c.now) (p := fun d => d.id == id) hd
        (fun _ => rfl) (fun _ => rfl) (beq_iff_eq.2 hid) rfl ?_ _
      simp [savedDoc, DocRecord.touched, eq_comm]
  | rendering content r conflicts =>
      rw [hp] at hplace
      unfold SavePlace.step
      dsimp only
      split
      · next db' happly =>
          obtain ⟨rev, hrender⟩ := applySync_eq_true happly
          obtain ⟨hu', hv, hcell⟩ := applyGeneratedRender_cell hu hd rfl (hdoc ▸ hrender)
          exact ⟨hu', .of_version hop hplace hv hcell⟩
      · next db' happly =>
          rw [applySync_eq_false happly]
          exact hsame
      · exact hsame
  | raising changeType diff diffs =>
      unfold SavePlace.step
      dsimp only
      split <;> exact hsame
  | dismissing changeType latest diff diffs => exact hchanges _ rfl rfl rfl
  | recording changeType diff diffs => exact hchanges _ rfl rfl rfl
  | templating templateId r =>
      rw [hp] at hplace
      unfold SavePlace.step
      dsimp only
      split
      · next db' rev hrender =>
          obtain ⟨hu', hv, hcell⟩ := applyGeneratedRender_cell hu hd rfl (hdoc ▸ hrender)
          exact ⟨hu', .of_version hop hplace hv hcell⟩
      · exact hsame
  | resolving change diff action userId =>
      rw [hp] at hplace
      unfold SavePlace.step
      dsimp only
      split
      · next db' hwrite =>
          rcases resolveWrite_eq_ok hwrite with rfl | ⟨r, rev, hr, hrender⟩ |
            ⟨content, rev, hsave⟩
          · exact hsame
          · obtain ⟨hu', hv, hcell⟩ := applyGeneratedRender_cell hu hd hr (hdoc ▸ hrender)
            exact ⟨hu', .of_version hop hplace hv hcell⟩
          · obtain ⟨hu', hv, hcell⟩ := updateDocWithVersion_cell hu hd (hdoc ▸ hsave)
            exact ⟨hu', .of_version hop hplace hv hcell⟩
      · exact hsame
  | acknowledging changeId => exact hchanges _ rfl rfl rfl
  | lab call =>
      rw [hp] at hplace
      exact labStep_saveEffect hu hd hop.held hplace c.now
  | returned => exact hsame

end Calls

/-! ### What the operations know after a call -/

section After

variable {db db' : Db} {id : Bytes} {d : DocRecord} {op : SaveOp}

/-- After a call that leaves the content. -/
theorem SaveOp.heldAfter_of_cell (hop : op.held.Ok (docCell d))
    (hcell : cellOf db id = some (docCell d)) (hcell' : cellOf db' id = cellOf db id) :
    (op.heldAfter id db db').Ok (docCell d) := by
  rw [SaveOp.heldAfter, hcell'.trans hcell]
  split
  · next h =>
      obtain rfl := Option.some.inj h
      exact Held.ok_of_read _
  · rw [hcell, if_pos rfl]
    exact hop
  · exact hop

/-- After a write of its own. -/
theorem SaveOp.heldAfter_of_write {cell' : Versioned Bytes} (hover : op.held.overtaken = false)
    (hcell' : cellOf db' id = some cell') (hne : cellOf db' id ≠ cellOf db id) :
    (op.heldAfter id db db').Ok cell' := by
  have hread : ∀ h : cellOf db' id ≠ cellOf db id,
      (if cellOf db' id = cellOf db id then op.held else { op.held with read := cell' }).Ok cell' := by
    intro h
    rw [if_neg h]
    exact ⟨fun _ => rfl, fun hk => absurd (hover.symm.trans hk) (by decide)⟩
  rw [SaveOp.heldAfter, hcell']
  rw [hcell'] at hread hne
  split
  · next h =>
      obtain rfl := Option.some.inj h
      exact Held.ok_of_read _
  · next h _ =>
      obtain rfl := Option.some.inj h
      exact hread hne
  · next h => cases h

/-- A call that leaves the tables, other than a second reading. -/
theorem SaveOp.heldAfter_self (hplace : ∀ docId content fingerprint,
    op.place ≠ .lab (.found docId content fingerprint)) : op.heldAfter id db db = op.held := by
  rw [SaveOp.heldAfter]
  split
  · next h _ => exact absurd h (hplace _ _ _)
  · rw [if_pos rfl]
  · rfl

theorem labStep_ok (hd : getDoc db id = some d) {held held' : Held Bytes} {call : LabCall}
    (hcall : LabCallOk id held call) (now : ℕ)
    (hfound : ∀ docId content fingerprint, call = .found docId content fingerprint →
      held'.read = docCell d) : LabCallOk id held' (labStep db call [] now).2 := by
  cases call with
  | found docId content fingerprint =>
      obtain rfl : docId = id := hcall
      have hread := hfound docId content fingerprint rfl
      unfold labStep
      dsimp only
      rw [hd]
      dsimp only
      have hcleaned : ∀ clean, (if stripTopologyMarker d.content = d.content then none
          else some (stripTopologyMarker d.content)) = some clean → clean ≠ held'.read.value := by
        intro clean hclean
        split at hclean
        · cases hclean
        · next hne =>
            obtain rfl := Option.some.inj hclean
            rw [hread]
            exact hne
      split
      · generalize (if stripTopologyMarker d.content = d.content then none
          else some (stripTopologyMarker d.content)) = cleaned at hcleaned ⊢
        split
        · exact ⟨rfl, by rw [hread, docCell], hcleaned⟩
        · trivial
      · rfl
  | unchanged docId fingerprint cleaned expectedVersion =>
      unfold labStep
      dsimp only
      split <;> trivial
  | changed docId content fingerprint =>
      unfold labStep thenCall
      dsimp only
      split
      · exact hcall
      · trivial
  | updated docId content fingerprint =>
      unfold labStep
      dsimp only
      split
      · trivial
      · exact hcall
  | read docId content fingerprint rev => exact hcall
  | versioned docId fingerprint =>
      unfold labStep thenCall
      dsimp only
      split <;> trivial
  | returned | failed => trivial
  | rendered | missing | created => cases hcall

/-- **Where the operation is after a call.** -/
theorem SavePlace.step_ok (hd : getDoc db id = some d) (hop : op.Ok id (docCell d))
    (c : SaveChance) : (op.place.step db op.doc c).2.Ok id op.doc
      (op.heldAfter id db (op.place.step db op.doc c).1) := by
  have hplace := hop.place
  cases hp : op.place with
  | listed r =>
      rw [hp] at hplace
      unfold SavePlace.step
      dsimp only
      rw [SaveOp.heldAfter_self (by simp [hp])]
      split
      · trivial
      · exact syncPlace_ok hplace r
  | legacy r =>
      rw [hp] at hplace
      unfold SavePlace.step
      dsimp only
      split
      · rw [SaveOp.heldAfter_self (by simp [hp])]
        split
        · trivial
        · exact hplace
      · rw [SaveOp.heldAfter_self (by simp [hp])]
        exact hplace
  | adopting r =>
      unfold SavePlace.step
      dsimp only
      split <;> trivial
  | touching r conflicts => exact raiseAll_ok _ _ _ _ _
  | rendering content r conflicts =>
      unfold SavePlace.step
      dsimp only
      split
      · exact raiseAll_ok _ _ _ _ _
      · trivial
      · trivial
  | raising changeType diff diffs =>
      unfold SavePlace.step
      dsimp only
      split
      · trivial
      · split
        · exact raiseAll_ok _ _ _ _ _
        · split <;> trivial
  | dismissing changeType latest diff diffs => trivial
  | recording changeType diff diffs => exact raiseAll_ok _ _ _ _ _
  | templating templateId r =>
      unfold SavePlace.step
      dsimp only
      split <;> trivial
  | resolving change diff action userId =>
      unfold SavePlace.step
      dsimp only
      split <;> trivial
  | acknowledging changeId => trivial
  | lab call =>
      rw [hp] at hplace
      refine labStep_ok hd hplace c.now ?_
      rintro docId content fingerprint rfl
      have hsame : (labStep db (.found docId content fingerprint) [] c.now).1 = db := by
        unfold labStep
        dsimp only
        split
        · rfl
        · next current _ =>
            generalize (if stripTopologyMarker current.content = current.content then none
              else some (stripTopologyMarker current.content)) = cleaned
            split
            · split <;> rfl
            · rfl
      rw [SavePlace.step, hsame, SaveOp.heldAfter, hp, cellOf_of_getDoc hd]
  | returned => trivial

end After

/-! ### The invariant is kept -/

section Keeping

variable {id : Bytes} {s t : SaveState} {d d' : DocRecord}

theorem SaveOp.Ok.overtake {cell cell' : Versioned Bytes} {op : SaveOp} (h : op.Ok id cell)
    (hnext : cell.version < cell'.version) : op.overtake.Ok id cell' where
  doc := h.doc
  held := h.held.overtake hnext
  place := h.place.of_read rfl

theorem SaveInv.cell (hinv : SaveInv id s d) : cellOf s.db id = some (docCell d) :=
  cellOf_of_getDoc hinv.doc

/-- The content is as before. -/
theorem SaveInv.written_of_cell (hinv : SaveInv id s d) {db : Db} (hu : UniqueIds db)
    (hcell : cellOf db id = cellOf s.db id) :
    s.written id db = { s with db := db } ∧ ∃ d', docCell d' = docCell d ∧
      SaveInv id { s with db := db } d' := by
  refine ⟨if_pos hcell, ?_⟩
  rw [hinv.cell] at hcell
  obtain ⟨d', hd', hcell'⟩ := Option.map_eq_some_iff.1 hcell
  refine ⟨d', hcell', hu, hd', ?_, ?_⟩
  · rw [hcell']
    exact hinv.shown
  · rw [hcell']
    exact hinv.ops

/-- The content has its next version. -/
theorem SaveInv.written_of_write (hinv : SaveInv id s d) {db : Db} (hu : UniqueIds db)
    {cell' : Versioned Bytes} (hcell : cellOf db id = some cell')
    (hnext : cell'.version = d.currentVersion + 1) :
    s.written id db =
        { db := db, ops := s.ops.map SaveOp.overtake, shown := s.shown ++ [cell'] } ∧
      ∃ d', docCell d' = cell' ∧ SaveInv id
        { db := db, ops := s.ops.map SaveOp.overtake, shown := s.shown ++ [cell'] } d' := by
  have hlt : (docCell d).version < cell'.version := hnext ▸ Nat.lt_succ_self _
  constructor
  · rw [SaveState.written, if_neg, hcell]
    · rfl
    · rw [hcell, hinv.cell]
      intro h
      rw [Option.some.inj h] at hlt
      exact lt_irrefl _ hlt
  · obtain ⟨d', hd', rfl⟩ := Option.map_eq_some_iff.1 hcell
    refine ⟨d', rfl, hu, hd', hinv.shown.write hlt, fun op hop => ?_⟩
    obtain ⟨op₀, hop₀, rfl⟩ := List.mem_map.1 hop
    exact (hinv.ops op₀ hop₀).overtake hlt

/-- Another place and other knowledge of one operation. -/
theorem SaveInv.set (hinv : SaveInv id s d) {i : ℕ} {op : SaveOp} (hop : op.Ok id (docCell d)) :
    SaveInv id { s with ops := s.ops.set i op } d where
  unique := hinv.unique
  doc := hinv.doc
  shown := hinv.shown
  ops := forall_mem_set hinv.ops hop

/-- An operation reads the doc. -/
theorem SaveInv.start (hinv : SaveInv id s d) {place : SavePlace}
    (hplace : place.Ok id d ⟨docCell d, false⟩) : SaveInv id (s.start d place) d where
  unique := hinv.unique
  doc := hinv.doc
  shown := hinv.shown
  ops := forall_mem_append_singleton hinv.ops
    ⟨(getDoc_eq_some hinv.doc).2.1, Held.ok_of_read _, hplace⟩

end Keeping

/-! ### Which steps are as claimed -/

section Claimed

variable {id : Bytes} {s t : SaveState} {d : DocRecord} {ev : SaveEvent}

/-- A step that leaves the content. -/
theorem savesKept_of_cell (hinv : SaveInv id s d) (hcell : cellOf t.db id = cellOf s.db id)
    (hshown : t.shown = s.shown)
    (hskips : Overtaken s (docCell d) ev → tracked t.db id = tracked s.db id) :
    SavesKept id s ev t where
  based cell hs ht := absurd (hcell.trans hs) ht
  skips cell hs hover := by
    obtain rfl := Option.some.inj (hinv.cell.symm.trans hs)
    exact hskips hover
  agree := hshown ▸ hinv.shown.agree

/-- A step that writes the next version. -/
theorem savesKept_of_write (hinv : SaveInv id s d) {cell' : Versioned Bytes}
    (hnext : cell'.version = d.currentVersion + 1) (hshown : t.shown = s.shown ++ [cell'])
    (hbased : BasedOn s (docCell d) ev) (hnot : ¬Overtaken s (docCell d) ev) :
    SavesKept id s ev t where
  based cell hs _ := Option.some.inj (hinv.cell.symm.trans hs) ▸ hbased
  skips cell hs hover := absurd (Option.some.inj (hinv.cell.symm.trans hs) ▸ hover) hnot
  agree := by
    have hlt : (docCell d).version < cell'.version := hnext ▸ Nat.lt_succ_self _
    rw [hshown]
    exact (hinv.shown.write hlt).agree

/-- A versioned write of the content, or none. -/
theorem SaveInv.transaction (hinv : SaveInv id s d) {db : Db} (hu : UniqueIds db)
    {cell' : Versioned Bytes} (hcell : cellOf db id = some cell')
    (hnext : cell'.version = d.currentVersion + 1) (hbased : BasedOn s (docCell d) ev)
    (hnot : ¬Overtaken s (docCell d) ev) :
    SavesKept id s ev (s.written id db) ∧ ∃ d', SaveInv id (s.written id db) d' := by
  obtain ⟨hwritten, d', -, hinv'⟩ := hinv.written_of_write hu hcell hnext
  rw [hwritten]
  exact ⟨savesKept_of_write hinv hnext rfl hbased hnot, d', hinv'⟩

theorem SaveInv.idle (hinv : SaveInv id s d) : SavesKept id s ev s ∧ ∃ d', SaveInv id s d' :=
  ⟨savesKept_of_cell hinv rfl rfl fun _ => rfl, d, hinv⟩

/-- An operation that reads the doc. -/
theorem SaveInv.reading (hinv : SaveInv id s d) {place : SavePlace}
    (hplace : place.Ok id d ⟨docCell d, false⟩) :
    SavesKept id s ev (s.start d place) ∧ ∃ d', SaveInv id (s.start d place) d' :=
  ⟨savesKept_of_cell hinv rfl rfl fun _ => rfl, d, hinv.start hplace⟩

/-- **A versioned save** is as claimed. -/
theorem SaveInv.save (hinv : SaveInv id s d) {content author trigger : Bytes} {v now : ℕ}
    (h : s.next id (.save content v author trigger now) = some t) :
    SavesKept id s (.save content v author trigger now) t ∧ ∃ d', SaveInv id t d' := by
  rw [SaveState.next] at h
  split at h
  · next db rev hsave =>
      obtain rfl := Option.some.inj h
      obtain ⟨hu, rfl, hcell⟩ := updateDocWithVersion_cell hinv.unique hinv.doc hsave
      refine hinv.transaction hu hcell rfl ⟨rfl, fun x hx hv => ?_⟩ fun hne => hne rfl
      rw [hinv.shown.eq_of_version hx hv]
  · obtain rfl := Option.some.inj h
    exact hinv.idle

/-- **An approved proposal** is as claimed. -/
theorem SaveInv.approve (hinv : SaveInv id s d) {proposalId reviewerId : Bytes} {now : ℕ}
    (h : s.next id (.approve proposalId reviewerId now) = some t) :
    SavesKept id s (.approve proposalId reviewerId now) t ∧ ∃ d', SaveInv id t d' := by
  rw [SaveState.next] at h
  split at h
  · obtain rfl := Option.some.inj h
    exact hinv.idle
  · next p hp =>
      have hfound := List.find?_some hp
      rw [Bool.and_eq_true, beq_iff_eq, beq_iff_eq] at hfound
      obtain ⟨hid, hpending⟩ := hfound
      split at h
      · next hdoc =>
          split at h
          · next db rev happrove =>
              obtain rfl := Option.some.inj h
              obtain ⟨hu, hbase, hcell⟩ :=
                approveDocEditProposal_cell hinv.unique hinv.doc hp hdoc happrove
              have hmem := List.mem_of_find?_eq_some hp
              refine hinv.transaction hu hcell rfl
                ⟨p, hmem, hid, hpending, hbase, fun x hx hv => ?_⟩ fun hne =>
                  hne p hmem hid hpending hbase
              rw [hinv.shown.eq_of_version hx (hv.trans hbase)]
          · obtain rfl := Option.some.inj h
            exact hinv.idle
      · cases h

/-- What a call does to the ghost state. -/
theorem SaveInv.stepOp (hinv : SaveInv id s d) {i : ℕ} {op : SaveOp} (hop : op ∈ s.ops)
    (hi : s.ops[i]? = some op) (c : SaveChance) :
    (SavesKept id s (.step i c) (s.stepOp id i op c) ↔
      (!c.io || op.place.inTurn s.db d op.held.overtaken) = true) ∧
    ((!c.io || op.place.inTurn s.db d op.held.overtaken) = true →
      ∃ d', SaveInv id (s.stepOp id i op c) d') := by
  have hok : op.Ok id (docCell d) := hinv.ops op hop
  have hover : Overtaken s (docCell d) (.step i c) ↔ op.held.overtaken = true := by
    constructor
    · rintro ⟨op', hi', hover⟩
      obtain rfl := Option.some.inj (hi.symm.trans hi')
      exact hover
    · exact fun h => ⟨op, hi, h⟩
  rw [SaveState.stepOp]
  cases hio : c.io with
  | false =>
      -- the call does not go through
      rw [if_neg (by decide)]
      refine ⟨iff_of_true (savesKept_of_cell hinv rfl rfl fun _ => rfl) rfl, fun _ => ⟨d, ?_⟩⟩
      exact hinv.set ⟨hok.doc, hok.held, hok.place.afterFailure⟩
  | true =>
      rw [if_pos rfl, Bool.not_true, Bool.false_or]
      dsimp only
      obtain ⟨hu, heffect⟩ := SavePlace.step_effect hinv.unique hinv.doc hok c
      have hplace := SavePlace.step_ok hinv.doc hok c
      generalize op.place.step s.db op.doc c = p at hu heffect hplace ⊢
      generalize op.place.inTurn s.db d op.held.overtaken = turn at heffect ⊢
      -- a call that leaves the content
      have hsame : cellOf p.1 id = cellOf s.db id →
          ∃ d', SaveInv id { s.written id p.1 with
            ops := (s.written id p.1).ops.set i
              { op with place := p.2, held := op.heldAfter id s.db p.1 } } d' := by
        intro hcell
        obtain ⟨hwritten, d', hd', hinv'⟩ := hinv.written_of_cell hu hcell
        rw [hwritten]
        refine ⟨d', hinv'.set ⟨hok.doc, ?_, hplace⟩⟩
        rw [hd']
        exact SaveOp.heldAfter_of_cell hok.held hinv.cell hcell
      have hdb : (s.written id p.1).db = p.1 := by
        rw [SaveState.written]
        split <;> rfl
      have hshown : cellOf p.1 id = cellOf s.db id → (s.written id p.1).shown = s.shown := by
        intro hcell
        rw [SaveState.written, if_pos hcell]
      cases heffect with
      | quiet same hturn =>
          have hcell := cellOf_of_tracked same
          refine ⟨iff_of_true ?_ hturn, fun _ => hsame hcell⟩
          exact savesKept_of_cell hinv (by rw [hdb]; exact hcell) (hshown hcell) fun _ => by
            rw [hdb]
            exact same
      | booked hcell differs hturn =>
          refine ⟨?_, fun _ => hsame hcell⟩
          rw [hturn, Bool.not_eq_true', ← Bool.not_eq_true, ← hover]
          constructor
          · intro hkept h
            have hskip := hkept.skips _ hinv.cell h
            rw [hdb] at hskip
            exact differs hskip
          · intro hnot
            exact savesKept_of_cell hinv (by rw [hdb]; exact hcell) (hshown hcell) fun h =>
              absurd h hnot
      | wrote cell hcell hnext hturn =>
          obtain ⟨hwritten, d', hd', hinv'⟩ := hinv.written_of_write hu hcell hnext
          have hne : cellOf p.1 id ≠ cellOf s.db id := by
            rw [hcell, hinv.cell]
            intro h
            rw [Option.some.inj h] at hnext
            exact Nat.succ_ne_self _ hnext.symm
          rw [hturn, Bool.not_eq_true']
          refine ⟨⟨fun hkept => ?_, fun hnot => ?_⟩, fun hnot => ?_⟩
          · by_contra h
            have hskip := hkept.skips _ hinv.cell (hover.2 (by simpa using h))
            rw [hdb] at hskip
            exact hne (cellOf_of_tracked hskip)
          · refine savesKept_of_write hinv hnext (by rw [hwritten]) ?_ ?_
            · exact ⟨op, hi, by rw [hok.held.current hnot]⟩
            · rw [hover, hnot]
              decide
          · rw [hwritten]
            refine ⟨d', hinv'.set ⟨hok.doc, ?_, hplace⟩⟩
            rw [hd']
            exact SaveOp.heldAfter_of_write hnot hcell hne
      | rewrote value hcell differs hturn =>
          rw [hturn]
          refine ⟨iff_of_false (fun hkept => ?_) (by decide), fun h => by cases h⟩
          have hne : cellOf p.1 id ≠ cellOf s.db id := by
            rw [hcell, hinv.cell]
            exact fun h => differs (congrArg Versioned.value (Option.some.inj h))
          have hshown' : (s.written id p.1).shown = s.shown ++ [⟨d.currentVersion, value⟩] := by
            rw [SaveState.written, if_neg hne, hcell]
            rfl
          have hagree := hkept.agree
          rw [hshown'] at hagree
          have hsame := hagree _ (List.mem_append_right _ (List.mem_singleton_self _)) (docCell d)
            (List.mem_append_left _ hinv.shown.last) rfl
          exact differs (congrArg Versioned.value hsame)

/-- **A step is as claimed exactly when it is in turn**, and then the invariant is kept. -/
theorem SaveInv.next (hinv : SaveInv id s d) (h : s.next id ev = some t) :
    (SavesKept id s ev t ↔ inTurn id s ev = true) ∧
      (inTurn id s ev = true → ∃ d', SaveInv id t d') := by
  have hboth : SavesKept id s ev t ∧ (∃ d', SaveInv id t d') → inTurn id s ev = true →
      (SavesKept id s ev t ↔ inTurn id s ev = true) ∧
        (inTurn id s ev = true → ∃ d', SaveInv id t d') :=
    fun hkept hturn => ⟨iff_of_true hkept.1 hturn, fun _ => hkept.2⟩
  cases ev with
  | save content v author trigger now => exact hboth (hinv.save h) rfl
  | approve proposalId reviewerId now => exact hboth (hinv.approve h) rfl
  | propose proposals =>
      obtain rfl := Option.some.inj h
      exact hboth ⟨savesKept_of_cell hinv rfl rfl fun h => h.elim, d, hinv.unique, hinv.doc,
        hinv.shown, hinv.ops⟩ rfl
  | sync r =>
      rw [SaveState.next, hinv.doc] at h
      dsimp only at h
      split at h
      · cases h
      · obtain rfl := Option.some.inj h
        exact hboth (hinv.reading rfl) rfl
  | generate templateId connectorId r =>
      rw [SaveState.next] at h
      split at h
      · cases h
      · next d₁ hfind =>
          split at h
          · next hid =>
              obtain rfl := Option.some.inj h
              have hmem := (List.mem_insertionSort _).1 (List.mem_of_find?_eq_some hfind)
              obtain ⟨hmem, hactive⟩ := List.mem_filter.1 hmem
              rw [Bool.and_eq_true, Option.isNone_iff_eq_none] at hactive
              have hd := hinv.unique.getDoc_of_mem hmem hactive.2
              rw [hid] at hd
              obtain rfl := Option.some.inj (hinv.doc.symm.trans hd)
              exact hboth (hinv.reading rfl) rfl
          · cases h
  | resolve c action userId =>
      rw [SaveState.next, hinv.doc] at h
      split at h
      · next diff d₁ hdiff hd =>
          split at h
          · obtain rfl := Option.some.inj hd
            obtain rfl := Option.some.inj h
            exact hboth (hinv.reading rfl) rfl
          · cases h
      · cases h
  | draw content fingerprint skipIfUnchanged =>
      rw [SaveState.next] at h
      split at h
      · cases h
      · next d₁ hfind =>
          split at h
          · next hid =>
              obtain rfl := Option.some.inj h
              have hmem := List.mem_of_mem_drop (List.mem_of_mem_take
                (List.mem_of_find?_eq_some hfind))
              obtain ⟨hmem, hactive⟩ := List.mem_filter.1 ((List.mem_insertionSort _).1 hmem)
              rw [Bool.and_eq_true, Option.isNone_iff_eq_none] at hactive
              have hd := hinv.unique.getDoc_of_mem hmem hactive.1
              rw [hid] at hd
              obtain rfl := Option.some.inj (hinv.doc.symm.trans hd)
              refine hboth (hinv.reading ?_) rfl
              unfold labStep
              dsimp only
              rw [hfind]
              dsimp only
              split <;> exact hid
          · cases h
  | step i c =>
      rw [SaveState.next] at h
      split at h
      · cases h
      · next op hi =>
          obtain rfl := Option.some.inj h
          have hturn : inTurn id s (.step i c) =
              (!c.io || op.place.inTurn s.db d op.held.overtaken) := by
            rw [inTurn, hi, hinv.doc]
          rw [hturn]
          exact hinv.stepOp (List.mem_of_getElem? hi) hi c

end Claimed

theorem SaveInv.of_init {id : Bytes} {s : SaveState} (h : (saves id).init s) :
    ∃ d, SaveInv id s d := by
  obtain ⟨hu, hops, d, hd, hshown⟩ := h
  refine ⟨d, hu, hd, ?_, ?_⟩
  · rw [hshown]
    exact shown_singleton _
  · rw [hops]
    exact fun op hop => nomatch hop

/-- **No save is silently overwritten** in a run exactly when every step of it is in turn. -/
theorem saves_kept_iff (id : Bytes) {s : SaveState} (hinit : (saves id).init s)
    (evs : List SaveEvent) :
    (saves id).Along s evs (SavesKept id) ↔
      (saves id).Along s evs fun s ev _ => inTurn id s ev = true := by
  refine Machine.along_iff (I := fun s => ∃ d, SaveInv id s d) ?_ ?_ (SaveInv.of_init hinit)
  · rintro t ev u ⟨d, hinv⟩ hstep
    exact (hinv.next hstep).1
  · rintro t ev u ⟨d, hinv⟩ hstep hturn
    exact (hinv.next hstep).2 hturn

theorem saves_run {id : Bytes} {s t : SaveState} {evs : List SaveEvent}
    (h : evs.foldlM (SaveState.next id) s = some t) : (saves id).Run s evs t :=
  .foldlM (fun _ _ _ h => h) h

/-- A lab topology doc at its first version. -/
def drawnDoc : DocRecord := topologyRecord (bytes "t") (bytes "v1") (bytes "f1") 0

def drawnState : SaveState := ⟨⟨[drawnDoc], [], [], []⟩, [], [⟨1, bytes "v1"⟩]⟩

/-- A call that goes through. -/
def inTime : SaveChance := ⟨true, false, 0, 1⟩

/-- A save, and then another drawing. -/
def savedThenDrawn : List SaveEvent :=
  [.save (bytes "v2") 1 (bytes "u") (bytes "manual") 1, .draw (bytes "v3") (bytes "f3") false,
    .step 0 inTime, .step 0 inTime, .step 0 inTime, .step 0 inTime]

theorem drawnState_init : (saves (bytes "t")).init drawnState :=
  ⟨by simp [drawnState, UniqueIds], rfl, drawnDoc, by decide, rfl⟩

theorem saves_kept_sample :
    (savedThenDrawn.foldlM (SaveState.next (bytes "t")) drawnState).map
      (fun s => s.shown.map (·.version)) = some [1, 2, 3] ∧
    (saves (bytes "t")).Along drawnState savedThenDrawn (SavesKept (bytes "t")) := by
  refine ⟨by decide +kernel, (saves_kept_iff (bytes "t") drawnState_init savedThenDrawn).2 ?_⟩
  refine Machine.along_of_check
    (fun s ev t => (Iff.rfl : _ ↔ SaveState.next (bytes "t") s ev = some t)) ?_
  decide +kernel

/-- **A save is overwritten** by a drawing that was begun before it. -/
theorem save_overwritten :
    ¬(saves (bytes "t")).Along drawnState
      ([.draw (bytes "v3") (bytes "f3") false,
        .save (bytes "v2") 1 (bytes "u") (bytes "manual") 1] ++ [.step 0 inTime])
      (SavesKept (bytes "t")) := by
  intro h
  have hkept : SavesKept (bytes "t") _ _ _ := h.last (saves_run rfl) rfl
  obtain ⟨op, hop, hread⟩ := hkept.based ⟨2, bytes "v2"⟩ (by decide) (by decide)
  obtain rfl := Option.some.inj hop
  exact absurd hread (by decide)

end WiseLabz.Doc
