/-
**Out of the trash again.**

A deletion marks the docs under a doc with its time, and a restoration takes the docs with that time
out of the trash.  In between other calls may be made: as long as they leave the deleted docs and
the parents above them alone, no doc gets under a deleted one, so the docs that are restored are
those that were deleted.

Main definitions:

* `Store.storeMachine` — the calls that write docs, connectors and grants, in any order;
* `Store.Untouched`, `Store.quietMachine` — the calls that leave a batch and its parents alone;
* `Store.Collision` — a doc in the trash that would come out with the batch.

Main results:

* `Store.AccessEvent.comes` — **where the rows after a call come from**;
* `Store.markedSubtree_restored` — the batch at the restoration is that of the deletion;
* `Store.validateDocParent_restored` — the check of the restored doc's parent;
* `Store.trash_round_trip` — **a deleted doc is restored as it was**.
-/

import WiseLabz.Store.DocTree
import WiseLabz.Store.Visibility

set_option relaxedAutoImplicit false
set_option autoImplicit false

namespace WiseLabz.Store

open Lib

/-! ### The calls -/

/-- What a call is given: a generated doc is active and has no parent. -/
def AccessEvent.Given : AccessEvent → Prop
  | .docs (.createGenerated d) => d.deletedAt = none ∧ d.parentId = []
  | _ => True

/-- **The calls that write docs, connectors and grants**, in any order; a call may also fail. -/
def storeMachine : Machine AccessDb AccessEvent where
  init s := s.db.docs = []
  step s ev t := ev.Given ∧ (ev.run s = some t ∨ t = s)

/-! ### Where the rows after a call come from -/

/-- A row after a call: it stays, at most without its parent, or it was active under its parent, or
it is active under an active parent. -/
inductive Comes (db db' : Db) (e' : DocRecord) : Prop
  | stays (e : DocRecord) : e ∈ db.docs → e.id = e'.id → e'.deletedAt = e.deletedAt →
      e'.parentId = e.parentId ∨ e'.parentId = [] → Comes db db' e'
  | active (e : DocRecord) : e ∈ db.docs → e.id = e'.id → e.deletedAt = none →
      e'.parentId = e.parentId → Comes db db' e'
  | placed : e'.deletedAt = none → e'.parentId = [] ∨ (getDoc db' e'.parentId).isSome →
      Comes db db' e'

/-- What a call does to the rows. -/
structure Rows (db db' : Db) : Prop where
  unique : UniqueIds db'
  comes : ∀ e' ∈ db'.docs, Comes db db' e'

/-- Rows are rewritten in their places, under their parents. -/
structure InPlace (db db' : Db) : Prop where
  ids : db'.docs.map (·.id) = db.docs.map (·.id)
  rows : ∀ e' ∈ db'.docs, ∃ e ∈ db.docs, e.id = e'.id ∧ e'.parentId = e.parentId ∧
    e'.deletedAt = e.deletedAt

/-- Active rows under active parents are added. -/
structure Grown (db db' : Db) : Prop where
  unique : UniqueIds db'
  rows : ∃ added, db'.docs = db.docs ++ added ∧ ∀ x ∈ added, x.deletedAt = none ∧
    (x.parentId = [] ∨ (getDoc db' x.parentId).isSome)

section Rows

variable {db db' db'' : Db}

theorem InPlace.of_docs (h : db'.docs = db.docs) : InPlace db db' :=
  ⟨by rw [h], fun e' he' => ⟨e', h ▸ he', rfl, rfl, rfl⟩⟩

theorem InPlace.trans (h : InPlace db db') (h' : InPlace db' db'') : InPlace db db'' := by
  refine ⟨h'.ids.trans h.ids, fun e'' he'' => ?_⟩
  obtain ⟨e', he', hid', hparent', hdel'⟩ := h'.rows e'' he''
  obtain ⟨e, he, hid, hparent, hdel⟩ := h.rows e' he'
  exact ⟨e, he, hid.trans hid', hparent'.trans hparent, hdel'.trans hdel⟩

theorem InPlace.map {f : DocRecord → DocRecord} (hid : ∀ d, (f d).id = d.id)
    (hparent : ∀ d, (f d).parentId = d.parentId) (hdel : ∀ d, (f d).deletedAt = d.deletedAt)
    (h : db'.docs = db.docs.map f) : InPlace db db' := by
  refine ⟨?_, fun e' he' => ?_⟩
  · rw [h, List.map_map]
    exact List.map_congr_left fun d _ => hid d
  · rw [h] at he'
    obtain ⟨e, he, rfl⟩ := List.mem_map.1 he'
    exact ⟨e, he, (hid e).symm, hparent e, hdel e⟩

theorem InPlace.updateDocs {p : DocRecord → Bool} {f : DocRecord → DocRecord}
    (hid : ∀ d, (f d).id = d.id) (hparent : ∀ d, (f d).parentId = d.parentId)
    (hdel : ∀ d, (f d).deletedAt = d.deletedAt) : InPlace db (updateDocs db p f) := by
  refine .map (f := fun d => if p d then f d else d) ?_ ?_ ?_ rfl
  all_goals
    intro d
    split
    · first | exact hid d | exact hparent d | exact hdel d
    · rfl

theorem InPlace.updateDocContent {id content : Bytes} {version : Option ℕ} {now rev : ℕ}
    (h : updateDocContent db id content version now = .ok (db', rev)) : InPlace db db' := by
  obtain ⟨-, -, -, rfl⟩ := updateDocContent_eq_ok.1 h
  exact .updateDocs (fun _ => rfl) (fun _ => rfl) fun _ => rfl

theorem InPlace.createDocVersion {v : DocVersionRecord} (h : createDocVersion db v = .ok db') :
    InPlace db db' := by
  obtain ⟨-, -, rfl⟩ := createDocVersion_eq_ok.1 h
  exact .of_docs rfl

theorem InPlace.toRows (h : InPlace db db') (hu : UniqueIds db) : Rows db db' := by
  refine ⟨by rw [UniqueIds, h.ids]; exact hu, fun e' he' => ?_⟩
  obtain ⟨e, he, hid, hparent, hdel⟩ := h.rows e' he'
  exact .stays e he hid hdel (Or.inl hparent)

theorem Grown.of_docs (hu : UniqueIds db) (h : db'.docs = db.docs) : Grown db db' :=
  ⟨by rw [UniqueIds, h]; exact hu, [], by rw [h, List.append_nil],
    fun _ hx => absurd hx List.not_mem_nil⟩

theorem Grown.trans (h : Grown db db') (h' : Grown db' db'') : Grown db db'' := by
  obtain ⟨added, hadded, hrows⟩ := h.rows
  obtain ⟨added', hadded', hrows'⟩ := h'.rows
  refine ⟨h'.unique, added ++ added', by rw [hadded', hadded, List.append_assoc], fun x hx => ?_⟩
  rcases List.mem_append.1 hx with hx | hx
  · obtain ⟨hdel, hparent⟩ := hrows x hx
    refine ⟨hdel, hparent.imp_right fun hsome => ?_⟩
    obtain ⟨p, hp⟩ := Option.isSome_iff_exists.1 hsome
    obtain ⟨hmem, hid, hpdel⟩ := getDoc_eq_some hp
    rw [h'.unique.getDoc_iff.2 ⟨hadded' ▸ List.mem_append_left _ hmem, hid, hpdel⟩]
    rfl
  · exact hrows' x hx

theorem Grown.toRows (h : Grown db db') : Rows db db' := by
  obtain ⟨added, hadded, hrows⟩ := h.rows
  refine ⟨h.unique, fun e' he' => ?_⟩
  rw [hadded] at he'
  rcases List.mem_append.1 he' with he' | he'
  · exact .stays e' he' rfl rfl (Or.inl rfl)
  · exact .placed (hrows e' he').1 (hrows e' he').2

/-- One added row. -/
theorem Grown.append (hu : UniqueIds db) {x : DocRecord} (hdocs : db'.docs = db.docs ++ [x])
    (hfresh : ∀ d ∈ db.docs, d.id ≠ x.id) (hdel : x.deletedAt = none)
    (hparent : x.parentId = [] ∨ (getDoc db x.parentId).isSome) : Grown db db' := by
  have hu' : UniqueIds db' := by
    rw [UniqueIds, hdocs, List.map_append, List.nodup_append]
    refine ⟨hu, List.nodup_singleton _, ?_⟩
    simpa using hfresh
  refine ⟨hu', [x], hdocs, fun y hy => ?_⟩
  obtain rfl := List.mem_singleton.1 hy
  refine ⟨hdel, hparent.imp_right fun hsome => ?_⟩
  rw [getDoc_append hdocs hfresh hdel]
  split
  · rfl
  · exact hsome

/-- A checked parent is none or active. -/
theorem parent_of_validate {d : DocRecord} {parentId : Bytes}
    (h : validateDocParent db d parentId = .ok ()) :
    parentId = [] ∨ (getDoc db parentId).isSome := by
  obtain ⟨D, -, -, ⟨hroot, -⟩ | ⟨-, p, n, hp, -⟩⟩ := validateDocParent_spec h
  · exact Or.inl hroot
  · exact Or.inr (by rw [hp]; rfl)

theorem Grown.insertHumanDoc (hu : UniqueIds db) {d : HumanDoc} {newId title trigger : Bytes}
    {now : ℕ} (hvalid : validateDocParent db (d.toRecord now) d.parentId = .ok ())
    (h : insertHumanDoc db { d.toRecord now with title := title } newId trigger = .ok db') :
    Grown db db' := by
  obtain ⟨hfresh, -, rfl⟩ := insertHumanDoc_eq_ok h
  exact .append hu rfl hfresh rfl (parent_of_validate hvalid)

theorem Grown.importDocs (hu : UniqueIds db) {docs : List (HumanDoc × Bytes)} {now : ℕ}
    (h : importDocs db docs now = .ok db') : Grown db db' := by
  have hrun : docs.foldlM (importDoc now) db = .ok db' := h
  clear h
  induction docs generalizing db with
  | nil =>
      rw [List.foldlM_nil, pure_eq_ok] at hrun
      exact hrun ▸ .of_docs hu rfl
  | cons d docs ih =>
      rw [List.foldlM_cons] at hrun
      obtain ⟨db₁, hdoc, hrest⟩ := bind_eq_ok.1 hrun
      rw [importDoc, check_bind_eq_ok, mapError_eq_ok] at hdoc
      have hfirst : Grown db db₁ := .insertHumanDoc hu hdoc.1 hdoc.2
      exact hfirst.trans (ih hfirst.unique hrest)

/-- A doc is renamed or put under another parent. -/
theorem Rows.updateDocMetadata (hu : UniqueIds db) {id : Bytes} {title parentId : Option Bytes}
    {now : ℕ} (h : updateDocMetadata db id title parentId now = .ok db') : Rows db db' := by
  obtain ⟨d, parent, hd, rfl, hparent⟩ := updateDocMetadata_eq_ok h
  obtain ⟨hdm, hdid, hdel⟩ := getDoc_eq_some hd
  have hget := getDoc_withMetadata hd (title.getD d.title) parent now
  refine ⟨hu.updateDocs _ fun _ => rfl, fun e' he' => ?_⟩
  obtain ⟨e, he, rfl⟩ := mem_updateDocs.1 he'
  split
  · next hact =>
      simp only [DocRecord.isActive, Bool.and_eq_true, beq_iff_eq, Option.isNone_iff_eq_none]
        at hact
      obtain rfl := hu.eq_of_id he hdm (hact.1.trans hdid.symm)
      rcases hparent with rfl | hvalid
      · exact .stays e he rfl rfl (Or.inl rfl)
      · refine .placed hact.2 ((parent_of_validate hvalid).imp_right fun hsome => ?_)
        show (getDoc _ parent).isSome = true
        rw [hget]
        split
        · rfl
        · exact hsome
  · exact .stays e he rfl rfl (Or.inl rfl)

/-- The docs of the subtree are marked. -/
theorem Rows.softDelete (hu : UniqueIds db) (id stamp : Bytes) :
    Rows db (updateDocs db (DocRecord.isIn (markedSubtree db id none))
      (DocRecord.withDeletedAt (some stamp))) := by
  refine ⟨hu.updateDocs _ fun _ => rfl, fun e' he' => ?_⟩
  obtain ⟨e, he, rfl⟩ := mem_updateDocs.1 he'
  split
  · next hin =>
      rw [isIn_iff hu (fun a ha => (mem_markedSubtree ha).1) he] at hin
      exact .active e he rfl (mem_markedSubtree hin).2 rfl
  · exact .stays e he rfl rfl (Or.inl rfl)

theorem detachFromInactive_rows (d : DocRecord) : ∀ e' ∈ (detachFromInactive db d).docs,
    ∃ e ∈ db.docs, e.id = e'.id ∧ e'.deletedAt = e.deletedAt ∧
      (e'.parentId = e.parentId ∨ e'.parentId = []) := by
  unfold detachFromInactive
  split
  · intro e' he'
    obtain ⟨e, he, rfl⟩ := mem_updateDocs.1 he'
    refine ⟨e, he, ?_⟩
    split
    · exact ⟨rfl, rfl, Or.inr rfl⟩
    · exact ⟨rfl, rfl, Or.inl rfl⟩
  · exact fun e' he' => ⟨e', he', rfl, rfl, Or.inl rfl⟩

theorem UniqueIds.detachFromInactive (hu : UniqueIds db) (d : DocRecord) :
    UniqueIds (detachFromInactive db d) := by
  unfold Store.detachFromInactive
  split
  · exact hu.updateDocs _ fun _ => rfl
  · exact hu

/-- The docs of a batch are active again, under docs of the batch or an active parent. -/
theorem Rows.restoreDeletedDoc (hu : UniqueIds db) {id : Bytes}
    (h : restoreDeletedDoc db id = .ok db') : Rows db db' := by
  obtain ⟨d, hd, hdb', restored, hrestored, hvalid⟩ := restoreDeletedDoc_eq_ok h
  have hu₁ := hu.detachFromInactive d
  have hsub : ∀ a ∈ markedSubtree (detachFromInactive db d) id d.deletedAt,
      a ∈ (detachFromInactive db d).docs := fun a ha => (mem_markedSubtree ha).1
  have hu' : UniqueIds db' := by
    rw [hdb']
    exact hu₁.updateDocs _ fun _ => rfl
  have hin : ∀ a ∈ markedSubtree (detachFromInactive db d) id d.deletedAt,
      a.withDeletedAt none ∈ db'.docs := by
    intro a ha
    rw [hdb']
    exact mem_updateDocs.2 ⟨a, hsub a ha, if_pos ((isIn_iff hu₁ hsub (hsub a ha)).2 ha)⟩
  refine ⟨hu', fun e' he' => ?_⟩
  rw [hdb'] at he'
  obtain ⟨e₁, he₁, rfl⟩ := mem_updateDocs.1 he'
  split
  · next hbatch =>
      rw [isIn_iff hu₁ hsub he₁] at hbatch
      refine .placed rfl ?_
      rcases markedSubtree_cases hbatch with hid | ⟨t, ht, hchild⟩
      · have heq : e₁.withDeletedAt none = restored :=
          hu'.eq_of_id (hin e₁ hbatch) (getDoc_eq_some hrestored).1
            (hid.trans (getDoc_eq_some hrestored).2.1.symm)
        rw [heq]
        exact parent_of_validate hvalid
      · right
        show (getDoc db' e₁.parentId).isSome = true
        have hget : getDoc db' t.id = some (t.withDeletedAt none) :=
          hu'.getDoc_iff.2 ⟨hin t ht, rfl, rfl⟩
        rw [(isChildOf_iff.1 hchild).2, hget]
        rfl
  · obtain ⟨e, he, hid, hdel, hparent⟩ := detachFromInactive_rows d e₁ he₁
    exact .stays e he hid hdel hparent

/-- Docs are gone, and what was under them has no parent. -/
theorem Rows.removeDocs (hu : UniqueIds db) (gone : DocRecord → Bool) :
    Rows db (removeDocs db gone) := by
  have hid : ∀ (rows : List DocRecord) (e : DocRecord), (e.orphanedIn rows).id = e.id := by
    intro rows e
    rw [DocRecord.orphanedIn]
    split <;> rfl
  refine ⟨?_, fun e' he' => ?_⟩
  · rw [UniqueIds, Store.removeDocs, List.map_map]
    have hids : ∀ rows : List DocRecord,
        List.map ((fun d : DocRecord => d.id) ∘ DocRecord.orphanedIn rows) =
          List.map (fun d : DocRecord => d.id) := by
      intro rows
      funext l
      exact List.map_congr_left fun d _ => hid rows d
    rw [hids]
    exact hu.sublist (List.filter_sublist.map _)
  · obtain ⟨e, he, rfl⟩ := List.mem_map.1 he'
    refine .stays e (List.mem_of_mem_filter he) (hid _ e).symm ?_ ?_
    · rw [DocRecord.orphanedIn]
      split <;> rfl
    · rw [DocRecord.orphanedIn]
      split
      · exact Or.inl rfl
      · exact Or.inr rfl

end Rows

/-- **Where the rows after a call on the docs come from.** -/
theorem DocOp.rows {op : DocOp} {db db' : Db} (hu : UniqueIds db)
    (hgiven : AccessEvent.Given (.docs op)) (h : op.run db = some db') : Rows db db' := by
  cases op with
  | createHuman d newId now =>
      obtain ⟨hvalid, hinsert⟩ := createHumanDoc_eq_ok.1 (toOption_eq_some h)
      exact (Grown.insertHumanDoc hu hvalid hinsert).toRows
  | createGenerated d =>
      obtain ⟨hfresh, -, rfl⟩ := createDoc_eq_ok.1 (toOption_eq_some h)
      exact (Grown.append hu rfl hfresh hgiven.1 (Or.inl hgiven.2)).toRows
  | importDocs docs now => exact (Grown.importDocs hu (toOption_eq_some h)).toRows
  | updateMetadata id title parentId now => exact .updateDocMetadata hu (toOption_eq_some h)
  | updateContent id content version author trigger now =>
      obtain ⟨⟨db₂, rev⟩, hrun, rfl⟩ := Option.map_eq_some_iff.1 h
      obtain ⟨db₁, hcontent, hversion⟩ := updateDocWithVersion_eq_ok.1 (toOption_eq_some hrun)
      exact ((InPlace.updateDocContent hcontent).trans (.createDocVersion hversion)).toRows hu
  | approve id reviewerId now =>
      obtain ⟨⟨db₂, rev⟩, hrun, rfl⟩ := Option.map_eq_some_iff.1 h
      obtain ⟨p, proposals, db₁, hcontent, hversion⟩ :=
        approveDocEditProposal_eq_ok (toOption_eq_some hrun)
      have hproposals : InPlace db { db with proposals := proposals } := .of_docs rfl
      exact (hproposals.trans
        ((InPlace.updateDocContent hcontent).trans (.createDocVersion hversion))).toRows hu
  | render id r now =>
      obtain ⟨⟨db₂, rev⟩, hrun, rfl⟩ := Option.map_eq_some_iff.1 h
      obtain ⟨db₁, db₃, hcontent, hversion, rfl⟩ :=
        applyGeneratedRender_eq_ok.1 (toOption_eq_some hrun)
      refine InPlace.toRows ((InPlace.updateDocContent hcontent).trans
        ((InPlace.createDocVersion hversion).trans (.updateDocs ?_ ?_ ?_))) hu
      all_goals exact fun _ => rfl
  | touch id genKeys now =>
      obtain rfl := Option.some.inj h
      refine InPlace.toRows (.updateDocs ?_ ?_ ?_) hu
      all_goals exact fun _ => rfl
  | fingerprint id print content version =>
      have hok := toOption_eq_some h
      unfold setDocTopologyFingerprint at hok
      split at hok
      · obtain rfl := Except.ok.inj hok
        refine InPlace.toRows (.updateDocs ?_ ?_ ?_) hu
        all_goals exact fun _ => rfl
      · split at hok <;> cases hok
  | setOrigin id origin =>
      have hok := toOption_eq_some h
      unfold setDocOrigin at hok
      split at hok
      · obtain rfl := Except.ok.inj hok
        refine InPlace.toRows (.updateDocs ?_ ?_ ?_) hu
        all_goals exact fun _ => rfl
      · cases hok
  | softDelete id stamp =>
      obtain ⟨-, rfl⟩ := softDeleteDoc_eq_ok.1 (toOption_eq_some h)
      exact .softDelete hu id stamp
  | restore id => exact .restoreDeletedDoc hu (toOption_eq_some h)
  | purge cutoff batch =>
      obtain rfl := Option.some.inj h
      exact .removeDocs hu _

theorem Rows.refl {db : Db} (hu : UniqueIds db) : Rows db db := (InPlace.of_docs rfl).toRows hu

/-- **Where the rows after a call come from.** -/
theorem storeMachine_rows {s t : AccessDb} {ev : AccessEvent} (hu : UniqueIds s.db)
    (h : storeMachine.step s ev t) : Rows s.db t.db := by
  obtain ⟨hgiven, hrun | rfl⟩ := h
  swap
  · exact .refl hu
  cases ev with
  | docs op =>
      obtain ⟨db, hop, rfl⟩ := Option.map_eq_some_iff.1 hrun
      exact op.rows hu hgiven hop
  | createConnector id =>
      simp only [AccessEvent.run] at hrun
      split at hrun
      · cases hrun
      · obtain rfl := Option.some.inj hrun
        exact .refl hu
  | deleteConnector id =>
      simp only [AccessEvent.run, Store.deleteConnector] at hrun
      split at hrun
      · obtain rfl := Option.some.inj hrun
        refine (InPlace.map (f := DocRecord.withoutService id) ?_ ?_ ?_ rfl).toRows hu
        all_goals
          intro d
          rw [DocRecord.withoutService]
          split <;> rfl
      · cases hrun
  | upsertGrant g =>
      simp only [AccessEvent.run, Store.upsertGrant] at hrun
      split at hrun
      · obtain rfl := Option.some.inj hrun
        exact .refl hu
      · cases hrun
  | deleteGrant user connectorId source =>
      obtain rfl := Option.some.inj hrun
      exact .refl hu

theorem storeMachine_unique {s : AccessDb} (h : storeMachine.Reachable s) : UniqueIds s.db := by
  refine h.invariant (I := fun s => UniqueIds s.db) (fun s hs => ?_)
    (fun s ev t hu hstep => (storeMachine_rows hu hstep).unique)
  have hs : s.db.docs = [] := hs
  rw [UniqueIds, hs]
  exact List.nodup_nil

/-! ### The batch -/

/-- The deleted docs are in the trash as they were, and the parents above them are active under
their parents, with their connectors and origins. -/
structure Untouched (db₀ : Db) (id stamp : Bytes) (db : Db) : Prop where
  batch : ∀ r ∈ markedSubtree db₀ id none, r.withDeletedAt (some stamp) ∈ db.docs
  parents : ∀ p k, getDoc db₀ p.id = some p → Below (parentOf db₀) id p.id (k + 1) →
    ∃ p', getDoc db p.id = some p' ∧ p'.parentId = p.parentId ∧ p'.serviceId = p.serviceId ∧
      p'.origin = p.origin

/-- **The calls that leave a deleted batch and its parents alone.** -/
def quietMachine (db₀ : Db) (id stamp : Bytes) : Machine AccessDb AccessEvent where
  init s := softDeleteDoc db₀ id stamp = .ok s.db
  step s ev t := storeMachine.step s ev t ∧ Untouched db₀ id stamp t.db

/-- A doc that was in the trash already, with the time of the deletion, under a deleted doc. -/
def Collision (db₀ : Db) (id stamp : Bytes) (e : DocRecord) : Prop :=
  e ∈ db₀.docs ∧ e.deletedAt = some stamp ∧ ∃ b ∈ markedSubtree db₀ id none, isChildOf b e = true

/-- What is under a deleted doc is of the batch, or in the trash with another time. -/
def Separate (db₀ : Db) (id stamp : Bytes) (db : Db) : Prop :=
  ∀ e ∈ db.docs, ∀ b ∈ markedSubtree db₀ id none, isChildOf b e = true →
    (∃ r ∈ markedSubtree db₀ id none, e = r.withDeletedAt (some stamp)) ∨
      (e.deletedAt ≠ none ∧ e.deletedAt ≠ some stamp)

section Batch

variable {db₀ db db' : Db} {id stamp : Bytes} {d : DocRecord}

theorem mem_softDeleted (hu : UniqueIds db₀) {e' : DocRecord} :
    e' ∈ (updateDocs db₀ (DocRecord.isIn (markedSubtree db₀ id none))
        (DocRecord.withDeletedAt (some stamp))).docs ↔
      (∃ r ∈ markedSubtree db₀ id none, e' = r.withDeletedAt (some stamp)) ∨
        (e' ∈ db₀.docs ∧ e' ∉ markedSubtree db₀ id none) := by
  have hsub : ∀ a ∈ markedSubtree db₀ id none, a ∈ db₀.docs := fun a ha => (mem_markedSubtree ha).1
  rw [mem_updateDocs]
  constructor
  · rintro ⟨e, he, rfl⟩
    split
    · next hin => exact Or.inl ⟨e, (isIn_iff hu hsub he).1 hin, rfl⟩
    · next hin => exact Or.inr ⟨he, fun hmem => hin ((isIn_iff hu hsub he).2 hmem)⟩
  · rintro (⟨r, hr, rfl⟩ | ⟨he, hnot⟩)
    · exact ⟨r, hsub r hr, if_pos ((isIn_iff hu hsub (hsub r hr)).2 hr)⟩
    · exact ⟨e', he, if_neg fun hin => hnot ((isIn_iff hu hsub he).1 hin)⟩

/-- The docs of the batch lie below its root. -/
theorem below_of_batch (hu : UniqueIds db₀) {r : DocRecord} (hr : r ∈ markedSubtree db₀ id none) :
    ∃ k, Below (parentOf db₀) r.id id k := by
  refine markedSubtree_induction (P := fun r => ∃ k, Below (parentOf db₀) r.id id k) ?_ ?_ hr
  · rintro a - rfl
    exact ⟨0, .refl _⟩
  · rintro t - a ha hchild ⟨k, hk⟩
    obtain ⟨hne, hpar⟩ := isChildOf_iff.1 hchild
    obtain ⟨hmem, hdel⟩ := mem_markedSubtree ha
    have hstep := parentOf_of_child (hu.getDoc_of_mem hmem hdel) hne
    rw [hpar] at hstep
    exact ⟨k + 1, .step hstep hk⟩

/-- **The deletion itself leaves the parents alone**, as none of them is below the doc. -/
theorem Untouched.softDelete (hu : UniqueIds db₀) (hd : getDoc db₀ id = some d)
    (hvalid : validateDocParent db₀ d d.parentId = .ok ()) :
    Untouched db₀ id stamp (updateDocs db₀ (DocRecord.isIn (markedSubtree db₀ id none))
      (DocRecord.withDeletedAt (some stamp))) := by
  refine ⟨fun r hr => (mem_softDeleted hu).2 (Or.inl ⟨r, hr, rfl⟩), fun p k hp hbelow => ?_⟩
  obtain ⟨hmem, -, hdel⟩ := getDoc_eq_some hp
  have hnot : p ∉ markedSubtree db₀ id none := by
    intro hin
    -- then the doc would lie below itself
    obtain ⟨j, hj⟩ := below_of_batch hu hin
    obtain ⟨-, hdid, -⟩ := getDoc_eq_some hd
    obtain ⟨-, -, -, ⟨hroot, -⟩ | ⟨-, -, -, -, -, -, -, havoid⟩⟩ := validateDocParent_spec hvalid
    · have hup := parentOf_of_root hd hroot
      cases hbelow with
      | step hstep => rw [hup] at hstep; cases hstep
    · cases hbelow with
      | step hstep hrest =>
          obtain ⟨-, d', hd', rfl⟩ := parentOf_eq_some.1 hstep
          obtain rfl := Option.some.inj (hd.symm.trans hd')
          obtain ⟨n, hn⟩ := hrest.trans hj
          exact havoid n (hdid.symm ▸ hn)
  have hu' : UniqueIds (updateDocs db₀ (DocRecord.isIn (markedSubtree db₀ id none))
      (DocRecord.withDeletedAt (some stamp))) := hu.updateDocs _ fun _ => rfl
  have hp' := hu'.getDoc_iff.2 ⟨(mem_softDeleted hu).2 (Or.inr ⟨hmem, hnot⟩), rfl, hdel⟩
  exact ⟨p, hp', rfl, rfl, rfl⟩

theorem Separate.softDelete (hu : UniqueIds db₀) (hno : ∀ e, ¬ Collision db₀ id stamp e) :
    Separate db₀ id stamp (updateDocs db₀ (DocRecord.isIn (markedSubtree db₀ id none))
      (DocRecord.withDeletedAt (some stamp))) := by
  intro e he b hb hchild
  rcases (mem_softDeleted hu).1 he with hbatch | ⟨he, hnot⟩
  · exact Or.inl hbatch
  · refine Or.inr ⟨fun hdel => hnot (markedSubtree_closed hb he hdel hchild), fun hdel => ?_⟩
    exact hno e ⟨he, hdel, b, hb, hchild⟩

/-- **No call that leaves the batch alone puts a doc under a deleted one.** -/
theorem Separate.step (h : Separate db₀ id stamp db) (hrows : Rows db db')
    (hbatch : ∀ r ∈ markedSubtree db₀ id none, r.withDeletedAt (some stamp) ∈ db'.docs) :
    Separate db₀ id stamp db' := by
  intro e' he' b hb hchild
  obtain ⟨hne, hparent⟩ := isChildOf_iff.1 hchild
  -- a row that was of the batch is still the one it was
  have hsame : ∀ e, e.id = e'.id →
      (∃ r ∈ markedSubtree db₀ id none, e = r.withDeletedAt (some stamp)) →
      ∃ r ∈ markedSubtree db₀ id none, e' = r.withDeletedAt (some stamp) := by
    rintro e hid ⟨r, hr, rfl⟩
    exact ⟨r, hr, hrows.unique.eq_of_id he' (hbatch r hr) hid.symm⟩
  cases hrows.comes e' he' with
  | stays e he hid hdel hstay =>
      have hchild' : isChildOf b e = true := by
        rcases hstay with hstay | hstay
        · exact isChildOf_iff.2 ⟨hstay ▸ hne, hstay ▸ hparent⟩
        · exact (hne hstay).elim
      rcases h e he b hb hchild' with hmem | hother
      · exact Or.inl (hsame e hid hmem)
      · exact Or.inr (hdel ▸ hother)
  | active e he hid hdel hstay =>
      have hchild' : isChildOf b e = true := isChildOf_iff.2 ⟨hstay ▸ hne, hstay ▸ hparent⟩
      rcases h e he b hb hchild' with hmem | hother
      · exact Or.inl (hsame e hid hmem)
      · exact (hother.1 hdel).elim
  | placed hdel hplace =>
      -- the deleted doc is not active
      rcases hplace with hnone | hsome
      · exact (hne hnone).elim
      · obtain ⟨p, hp⟩ := Option.isSome_iff_exists.1 hsome
        obtain ⟨hpm, hpid, hpdel⟩ := getDoc_eq_some hp
        have heq := hrows.unique.eq_of_id hpm (hbatch b hb) (hpid.trans hparent)
        rw [heq] at hpdel
        cases hpdel

/-- **The batch at the restoration is that of the deletion.** -/
theorem markedSubtree_restored (hu : UniqueIds db) (hd : getDoc db₀ id = some d)
    (hbatch : ∀ r ∈ markedSubtree db₀ id none, r.withDeletedAt (some stamp) ∈ db.docs)
    (hsep : Separate db₀ id stamp db) {e : DocRecord} :
    e ∈ markedSubtree db id (some stamp) ↔
      ∃ r ∈ markedSubtree db₀ id none, e = r.withDeletedAt (some stamp) := by
  obtain ⟨hdm, hdid, hdel⟩ := getDoc_eq_some hd
  have hroot := mem_markedSubtree_self hdm hdid hdel
  constructor
  · intro he
    refine markedSubtree_induction (P := fun e => ∃ r ∈ markedSubtree db₀ id none,
      e = r.withDeletedAt (some stamp)) ?_ ?_ he
    · intro a ha hid
      exact ⟨d, hroot, hu.eq_of_id (mem_markedSubtree ha).1 (hbatch d hroot) (hid.trans hdid.symm)⟩
    · rintro t - a ha hchild ⟨r, hr, rfl⟩
      obtain ⟨ham, hadel⟩ := mem_markedSubtree ha
      rcases hsep a ham r hr hchild with hmem | hother
      · exact hmem
      · exact (hother.2 hadel).elim
  · rintro ⟨r, hr, rfl⟩
    refine markedSubtree_induction
      (P := fun r => r.withDeletedAt (some stamp) ∈ markedSubtree db id (some stamp)) ?_ ?_ hr
    · intro a ha hid
      exact mem_markedSubtree_self (hbatch a ha) hid rfl
    · intro t _ a ha hchild ht
      exact markedSubtree_closed ht (hbatch a ha) rfl hchild

/-! ### The check of the parent -/

/-- **The walk up** finds the same if the parents are the same. -/
theorem climb_congr {depth : ℕ} {seen : List Bytes} {a : Bytes} {D : ℕ}
    (hparents : ∀ p k, getDoc db₀ p.id = some p → Below (parentOf db₀) a p.id k →
      ∃ p', getDoc db p.id = some p' ∧ p'.parentId = p.parentId ∧ p'.serviceId = p.serviceId ∧
        p'.origin = p.origin)
    (h : climb db₀ d depth seen a = .ok D) : climb db d depth seen a = .ok D := by
  fun_induction climb db₀ d depth seen a with
  | case1 depth seen => rw [climb, if_pos rfl]; exact h
  | case2 => cases h
  | case3 => cases h
  | case4 => cases h
  | case5 => cases h
  | case6 => cases h
  | case7 depth seen a ha hseen parent hparent hservice hhuman hdepth ih =>
      have hpid := (getDoc_eq_some hparent).2.1
      obtain ⟨p', hp', hp'parent, hp'service, hp'origin⟩ :=
        hparents parent 0 (by rw [hpid]; exact hparent) (hpid ▸ .refl _)
      have hrest : climb db d (depth + 1) (a :: seen) parent.parentId = .ok D := by
        by_cases hnone : parent.parentId = []
        · rw [hnone, climb_nil] at h ⊢
          exact h
        · exact ih (fun p k hp hbelow =>
            hparents p (k + 1) hp (.step (parentOf_of_child hparent hnone) hbelow)) h
      rw [hpid] at hp'
      rw [climb, if_neg ha, if_neg hseen, hp']
      simp only [hp'service, hp'origin, hp'parent]
      rw [if_neg hservice, if_neg hhuman, dif_neg hdepth, hrest]

/-- **The walk down** finds no more if there is no more to be found. -/
theorem heightFrom_le {S : Bytes → Prop}
    (hrows : ∀ e ∈ db.docs, e.deletedAt = none → e.parentId ≠ [] → S e.parentId →
      S e.id ∧ ∃ e₀ ∈ db₀.docs, e₀.deletedAt = none ∧ e₀.id = e.id ∧ e₀.parentId = e.parentId)
    {fuel : ℕ} {ids ids₀ : List Bytes} (hids : ∀ a ∈ ids, S a) (hsub : ids ⊆ ids₀) :
    heightFrom db fuel ids ≤ heightFrom db₀ fuel ids₀ := by
  induction fuel generalizing ids ids₀ with
  | zero => exact le_rfl
  | succ fuel ih =>
      have hchildren : ∀ c ∈ activeChildren db ids, S c ∧ c ∈ activeChildren db₀ ids₀ := by
        intro c hc
        obtain ⟨e, he, rfl⟩ := List.mem_map.1 hc
        obtain ⟨hem, hp⟩ := List.mem_filter.1 he
        simp only [Bool.and_eq_true, Option.isNone_iff_eq_none, bne_iff_ne, ne_eq,
          List.contains_eq_mem, decide_eq_true_eq] at hp
        obtain ⟨⟨hdel, hne⟩, hin⟩ := hp
        obtain ⟨hS, e₀, he₀, hdel₀, hid₀, hparent₀⟩ := hrows e hem hdel hne (hids _ hin)
        refine ⟨hS, List.mem_map.2 ⟨e₀, List.mem_filter.2 ⟨he₀, ?_⟩, hid₀⟩⟩
        simp [hdel₀, hparent₀, hne, hsub hin]
      rw [heightFrom, heightFrom]
      cases hc : activeChildren db ids with
      | nil =>
          dsimp only
          split
          · exact le_rfl
          · exact Nat.le_add_left 1 _
      | cons c cs =>
          have hmem₀ := (hchildren c (hc ▸ List.mem_cons_self)).2
          cases hc₀ : activeChildren db₀ ids₀ with
          | nil => rw [hc₀] at hmem₀; cases hmem₀
          | cons c₀ cs₀ =>
              refine Nat.add_le_add_right (ih ?_ ?_) 1
              · exact fun a ha => (hchildren a (hc ▸ ha)).1
              · exact fun a ha => hc₀ ▸ (hchildren a (hc ▸ ha)).2

/-! ### The restoration -/

/-- What the restoration leaves. -/
def restoredDb (db₀ : Db) (id : Bytes) (db : Db) : Db :=
  updateDocs db (DocRecord.isIn (markedSubtree db₀ id none)) (DocRecord.withDeletedAt none)

theorem withDeletedAt_batch {r : DocRecord} (hr : r ∈ markedSubtree db₀ id none) :
    (r.withDeletedAt (some stamp)).withDeletedAt none = r := by
  obtain ⟨-, hdel⟩ := mem_markedSubtree hr
  rw [DocRecord.withDeletedAt, DocRecord.withDeletedAt, ← hdel]

theorem isIn_of_mem {rows : List DocRecord} {r e : DocRecord} (hr : r ∈ rows) (hid : r.id = e.id) :
    e.isIn rows = true :=
  List.any_eq_true.2 ⟨r, hr, by simpa using hid⟩

/-- The docs of the batch are what they were. -/
theorem mem_restoredDb (hbatch : ∀ r ∈ markedSubtree db₀ id none,
    r.withDeletedAt (some stamp) ∈ db.docs) {r : DocRecord} (hr : r ∈ markedSubtree db₀ id none) :
    r ∈ (restoredDb db₀ id db).docs := by
  have hin : (r.withDeletedAt (some stamp)).isIn (markedSubtree db₀ id none) = true :=
    isIn_of_mem hr rfl
  refine mem_updateDocs.2 ⟨_, hbatch r hr, ?_⟩
  rw [if_pos hin]
  exact withDeletedAt_batch hr

/-- The active docs under the batch are those of the batch. -/
theorem restored_below (hu : UniqueIds db) (hsep : Separate db₀ id stamp db)
    (hbatch : ∀ r ∈ markedSubtree db₀ id none, r.withDeletedAt (some stamp) ∈ db.docs)
    {e : DocRecord} (he : e ∈ (restoredDb db₀ id db).docs) (hdel : e.deletedAt = none)
    {b : DocRecord} (hb : b ∈ markedSubtree db₀ id none) (hchild : isChildOf b e = true) :
    e ∈ markedSubtree db₀ id none := by
  have hu' : UniqueIds (restoredDb db₀ id db) := hu.updateDocs _ fun _ => rfl
  obtain ⟨e₁, he₁, rfl⟩ := mem_updateDocs.1 he
  split at hdel
  · next hin =>
      obtain ⟨r, hr, hid⟩ := List.any_eq_true.1 hin
      rw [if_pos hin] at he ⊢
      rw [hu'.eq_of_id he (mem_restoredDb hbatch hr) (beq_iff_eq.1 hid).symm]
      exact hr
  · next hin =>
      rw [if_neg hin] at hchild
      rcases hsep e₁ he₁ b hb hchild with ⟨r, hr, rfl⟩ | hother
      · exact (hin (isIn_of_mem hr rfl)).elim
      · exact (hother.1 hdel).elim

/-- **The check of the restored doc's parent** finds what it would have found before. -/
theorem validateDocParent_restored (hu : UniqueIds db) (hd : getDoc db₀ id = some d)
    (hvalid : validateDocParent db₀ d d.parentId = .ok ()) (hsep : Separate db₀ id stamp db)
    (huntouched : Untouched db₀ id stamp db) :
    validateDocParent (restoredDb db₀ id db) d d.parentId = .ok () := by
  have hu' : UniqueIds (restoredDb db₀ id db) := hu.updateDocs _ fun _ => rfl
  obtain ⟨hdm, hdid, hddel⟩ := getDoc_eq_some hd
  have hroot := mem_markedSubtree_self hdm hdid hddel
  have hgetd : getDoc (restoredDb db₀ id db) id = some d :=
    hu'.getDoc_iff.2 ⟨mem_restoredDb huntouched.batch hroot, hdid, hddel⟩
  obtain ⟨D, hclimb, hret⟩ := bind_eq_ok.1 hvalid
  rw [ite_error_eq_ok] at hret
  -- the parents above are where they were
  have hclimb' : climb (restoredDb db₀ id db) d 1 [d.id] d.parentId = .ok D := by
    by_cases hnone : d.parentId = []
    · rw [hnone, climb_nil] at hclimb ⊢
      exact hclimb
    · refine climb_congr (fun p k hp hbelow => ?_) hclimb
      obtain ⟨p', hp', hrest⟩ := huntouched.parents p k hp
        (.step (parentOf_of_child hd hnone) hbelow)
      obtain ⟨hmem, hpid, hdel⟩ := getDoc_eq_some hp'
      refine ⟨p', hu'.getDoc_iff.2 ⟨mem_updateDocs.2 ⟨p', hmem, ?_⟩, hpid, hdel⟩, hrest⟩
      split
      · rw [DocRecord.withDeletedAt, ← hdel]
      · rfl
  -- the docs below are those of the batch
  have hheight : subtreeHeight (restoredDb db₀ id db) d.id ≤ subtreeHeight db₀ d.id := by
    rw [subtreeHeight, subtreeHeight, hdid, hgetd, hd]
    show heightFrom (restoredDb db₀ id db) 5 [id] ≤ heightFrom db₀ 5 [id]
    refine heightFrom_le (S := fun a => ∃ r ∈ markedSubtree db₀ id none, r.id = a) ?_ ?_
      (List.Subset.refl _)
    · rintro e he hdel hne ⟨b, hb, hbid⟩
      have hmem := restored_below hu hsep huntouched.batch he hdel hb
        (isChildOf_iff.2 ⟨hne, hbid.symm⟩)
      exact ⟨⟨e, hmem, rfl⟩, e, (mem_markedSubtree hmem).1, hdel, rfl, rfl⟩
    · intro a ha
      obtain rfl := List.mem_singleton.1 ha
      exact ⟨d, hroot, hdid⟩
  rw [validateDocParent, hclimb']
  show (if D + subtreeHeight (restoredDb db₀ id db) d.id - 1 > 5 then _ else _) = _
  rw [if_neg (by omega)]
  rfl

end Batch

/-! ### There and back -/

section RoundTrip

variable {s t : AccessDb} {id stamp : Bytes} {d : DocRecord} {evs : List AccessEvent}

/-- What holds along a run that leaves the batch alone. -/
theorem quiet_run {db₀ : Db} (hu : UniqueIds s.db) (hsep : Separate db₀ id stamp s.db)
    (huntouched : Untouched db₀ id stamp s.db) (h : (quietMachine db₀ id stamp).Run s evs t) :
    UniqueIds t.db ∧ Separate db₀ id stamp t.db ∧ Untouched db₀ id stamp t.db := by
  refine h.invariant (I := fun t => UniqueIds t.db ∧ Separate db₀ id stamp t.db ∧
    Untouched db₀ id stamp t.db) ?_ ⟨hu, hsep, huntouched⟩
  rintro s ev t ⟨hu, hsep, -⟩ ⟨hstep, huntouched⟩
  have hrows := storeMachine_rows hu hstep
  exact ⟨hrows.unique, hsep.step hrows huntouched.batch, huntouched⟩

theorem getDeletedDoc_eq {db : Db} (hu : UniqueIds db) {e : DocRecord} (he : e ∈ db.docs)
    (hdel : e.deletedAt = some stamp) : getDeletedDoc db e.id = some e := by
  cases hg : getDeletedDoc db e.id with
  | none =>
      have hnone := List.find?_eq_none.1 hg e he
      simp [hdel] at hnone
  | some e' =>
      have hid := List.find?_some hg
      simp only [Bool.and_eq_true, beq_iff_eq] at hid
      rw [hu.eq_of_id (List.mem_of_find?_eq_some hg) he hid.1]

/-- What does not look at the deletion time finds the same among the marked rows. -/
theorem any_marked_eq {rows rows' : List DocRecord} {p : DocRecord → Bool}
    (hmem : ∀ e, e ∈ rows ↔ ∃ r ∈ rows', e = r.withDeletedAt (some stamp))
    (hp : ∀ r, p (r.withDeletedAt (some stamp)) = p r) : rows.any p = rows'.any p := by
  rw [Bool.eq_iff_iff, List.any_eq_true, List.any_eq_true]
  constructor
  · rintro ⟨e, he, hpe⟩
    obtain ⟨r, hr, rfl⟩ := (hmem e).1 he
    exact ⟨r, hr, (hp r) ▸ hpe⟩
  · rintro ⟨r, hr, hpr⟩
    exact ⟨_, (hmem _).2 ⟨r, hr, rfl⟩, (hp r).trans hpr⟩

/-- **The restoration** of a doc whose batch and parents were left alone. -/
theorem restore_untouched {db₀ db : Db} (hu : UniqueIds db)
    (hd : getDoc db₀ id = some d) (hvalid : validateDocParent db₀ d d.parentId = .ok ())
    (hsep : Separate db₀ id stamp db) (huntouched : Untouched db₀ id stamp db) :
    restoreDeletedDoc db id =
      if clashes db (markedSubtree db₀ id none) then .error .generatedDocExists
      else .ok (restoredDb db₀ id db) := by
  obtain ⟨hdm, hdid, hddel⟩ := getDoc_eq_some hd
  have hroot := mem_markedSubtree_self hdm hdid hddel
  have hmarked := huntouched.batch d hroot
  have hdeleted := getDeletedDoc_eq hu hmarked rfl
  rw [show (d.withDeletedAt (some stamp)).id = id from hdid] at hdeleted
  have hdetach : detachFromInactive db (d.withDeletedAt (some stamp)) = db := by
    refine if_neg ?_
    rintro ⟨hne, hnone⟩
    obtain ⟨-, -, -, ⟨hroot, -⟩ | ⟨-, p, -, hp, -⟩⟩ := validateDocParent_spec hvalid
    · exact hne hroot
    · have hpid := (getDoc_eq_some hp).2.1
      obtain ⟨p', hp', -⟩ := huntouched.parents p 0 (hpid.symm ▸ hp)
        (.step (parentOf_of_child hd hne) (hpid ▸ .refl _))
      rw [hpid] at hp'
      rw [show (d.withDeletedAt (some stamp)).parentId = d.parentId from rfl, hp'] at hnone
      cases hnone
  have hmem := fun e => markedSubtree_restored (e := e) hu hd huntouched.batch hsep
  have hclash : clashes db (markedSubtree db id (some stamp)) =
      clashes db (markedSubtree db₀ id none) := any_marked_eq hmem fun _ => rfl
  have hisIn : DocRecord.isIn (markedSubtree db id (some stamp)) =
      DocRecord.isIn (markedSubtree db₀ id none) := by
    funext e
    exact any_marked_eq hmem fun _ => rfl
  have hu' : UniqueIds (restoredDb db₀ id db) := hu.updateDocs _ fun _ => rfl
  have hgetd : getDoc (restoredDb db₀ id db) id = some d :=
    hu'.getDoc_iff.2 ⟨mem_restoredDb huntouched.batch hroot, hdid, hddel⟩
  have hcheck := validateDocParent_restored hu hd hvalid hsep huntouched
  unfold restoreDeletedDoc
  rw [hdeleted]
  dsimp only
  rw [hdetach, show (d.withDeletedAt (some stamp)).deletedAt = some stamp from rfl, hclash, hisIn]
  split
  · rfl
  · rw [← restoredDb, hgetd]
    dsimp only
    rw [hcheck]
    rfl

theorem softDelete_removes {db₀ : Db} (hu : UniqueIds db₀) {a : Bytes} :
    ((getDoc db₀ a).isSome = true ∧
      getDoc (updateDocs db₀ (DocRecord.isIn (markedSubtree db₀ id none))
        (DocRecord.withDeletedAt (some stamp))) a = none) ↔
      ∃ r ∈ markedSubtree db₀ id none, r.id = a := by
  have hu' : UniqueIds (updateDocs db₀ (DocRecord.isIn (markedSubtree db₀ id none))
      (DocRecord.withDeletedAt (some stamp))) := hu.updateDocs _ fun _ => rfl
  constructor
  · rintro ⟨hsome, hnone⟩
    obtain ⟨e, he⟩ := Option.isSome_iff_exists.1 hsome
    obtain ⟨hmem, hid, hdel⟩ := getDoc_eq_some he
    by_contra hnot
    have hkept : e ∉ markedSubtree db₀ id none := fun hin => hnot ⟨e, hin, hid⟩
    rw [hu'.getDoc_iff.2 ⟨(mem_softDeleted hu).2 (Or.inr ⟨hmem, hkept⟩), hid, hdel⟩] at hnone
    cases hnone
  · rintro ⟨r, hr, rfl⟩
    obtain ⟨hmem, hdel⟩ := mem_markedSubtree hr
    rw [hu.getDoc_of_mem hmem hdel]
    refine ⟨rfl, ?_⟩
    by_contra hne
    obtain ⟨e, he⟩ := Option.ne_none_iff_exists'.1 hne
    obtain ⟨hem, hid, hedel⟩ := getDoc_eq_some he
    have heq := hu'.eq_of_id hem ((mem_softDeleted hu).2 (Or.inl ⟨r, hr, rfl⟩)) hid
    rw [heq] at hedel
    cases hedel

end RoundTrip

/-! ### Docs in their places -/

section Tree

variable {db : Db} {d : DocRecord}

/-- The walk up succeeds under docs that are in their places. -/
theorem TreeInv.climb_eq_ok (h : TreeInv db) {a : Bytes} {n : ℕ} (hn : Depth (parentOf db) a n)
    {depth : ℕ} {seen : List Bytes} {q : DocRecord} (hq : getDoc db a = some q)
    (hscope : InScope d q) (hle : depth + n ≤ 5)
    (hseen : ∀ x ∈ seen, ∀ k, ¬ Below (parentOf db) a x k) :
    climb db d depth seen a = .ok (depth + n) := by
  induction hn generalizing depth seen q with
  | @root a hup =>
      obtain ⟨hqm, hqid, hqdel⟩ := getDoc_eq_some hq
      have hroot : q.parentId = [] := by
        by_contra hne
        rw [parentOf_of_child hq hne] at hup
        cases hup
      rw [climb, if_neg (hqid ▸ h.ids q hqm), if_neg fun hmem => hseen a hmem 0 (.refl a), hq]
      dsimp only
      rw [if_neg (not_not_intro hscope.1), if_neg, dif_neg (by omega), hroot, climb_nil]
      rintro ⟨hs, ho, hne⟩
      exact hne (hscope.2 hs ho)
  | @child a b n hup hn ih =>
      obtain ⟨hqm, hqid, hqdel⟩ := getDoc_eq_some hq
      obtain ⟨hne, q', hq', hparent⟩ := parentOf_eq_some.1 hup
      obtain rfl := Option.some.inj (hq.symm.trans hq')
      obtain ⟨p, hp⟩ := Option.isSome_iff_exists.1 (h.isSome_parent hup)
      obtain ⟨hpm, hpid, hpdel⟩ := getDoc_eq_some hp
      have hqp := h.inScope q hqm p hpm (hpid.trans hparent.symm) (hpdel.trans hqdel.symm)
      have hdp : InScope d p := by
        refine ⟨hqp.1.trans hscope.1, fun hs ho => ?_⟩
        exact hqp.2 (hscope.1.trans hs) (hscope.2 hs ho)
      have hrest : climb db d (depth + 1) (a :: seen) b = .ok (depth + 1 + n) := by
        refine ih hp hdp (by omega) ?_
        intro x hx k hbelow
        rcases List.mem_cons.1 hx with rfl | hx
        · exact (Depth.child hup hn).not_below (.step hup hbelow)
        · exact hseen x hx (k + 1) (.step hup hbelow)
      rw [climb, if_neg (hqid ▸ h.ids q hqm), if_neg fun hmem => hseen a hmem 0 (.refl a), hq]
      dsimp only
      rw [if_neg (not_not_intro hscope.1), if_neg, dif_neg (by omega), hparent, hrest,
        show depth + 1 + n = depth + (n + 1) by omega]
      rintro ⟨hs, ho, hne'⟩
      exact hne' (hscope.2 hs ho)

/-- The walk down does not leave the five levels. -/
theorem TreeInv.heightFrom_le (h : TreeInv db) {fuel m : ℕ} {ids : List Bytes} (hm : m ≤ 5)
    (hids : ∀ c ∈ ids, Depth (parentOf db) c m) : m + heightFrom db fuel ids - 1 ≤ 5 := by
  induction fuel generalizing m ids with
  | zero => exact hm
  | succ fuel ih =>
      rw [heightFrom]
      cases hc : activeChildren db ids with
      | nil => exact hm
      | cons c cs =>
          have hchildren : ∀ c ∈ activeChildren db ids,
              m + 1 ≤ 5 ∧ Depth (parentOf db) c (m + 1) := by
            intro c hc
            obtain ⟨e, he, rfl⟩ := List.mem_map.1 hc
            obtain ⟨hem, hp⟩ := List.mem_filter.1 he
            simp only [Bool.and_eq_true, Option.isNone_iff_eq_none, bne_iff_ne, ne_eq,
              List.contains_eq_mem, decide_eq_true_eq] at hp
            obtain ⟨⟨hdel, hne⟩, hin⟩ := hp
            have hdepth := Depth.child
              (parentOf_of_child (h.unique.getDoc_of_mem hem hdel) hne) (hids _ hin)
            obtain ⟨n, hn, hdn⟩ := h.depth e hem hdel
            exact ⟨hdepth.unique hdn ▸ hn, hdepth⟩
          have hfirst := (hchildren c (hc ▸ List.mem_cons_self)).1
          have hrest := ih hfirst fun a ha => (hchildren a (hc ▸ ha)).2
          dsimp only
          omega

/-- **A doc in its place passes the check of its own parent.** -/
theorem TreeInv.validateDocParent_self (h : TreeInv db) {id : Bytes} (hd : getDoc db id = some d) :
    validateDocParent db d d.parentId = .ok () := by
  obtain ⟨hdm, hdid, hddel⟩ := getDoc_eq_some hd
  obtain ⟨m, hm, hdepth⟩ := h.depth d hdm hddel
  have hclimb : climb db d 1 [d.id] d.parentId = .ok m := by
    cases hdepth with
    | root hup =>
        have hroot : d.parentId = [] := by
          by_contra hne
          rw [parentOf_of_child (hdid ▸ hd) hne] at hup
          cases hup
        rw [hroot, climb_nil]
    | @child _ b n hup hn =>
        obtain ⟨hne, d', hd', hparent⟩ := parentOf_eq_some.1 hup
        obtain rfl := Option.some.inj ((hdid ▸ hd).symm.trans hd')
        obtain ⟨p, hp⟩ := Option.isSome_iff_exists.1 (h.isSome_parent hup)
        obtain ⟨hpm, hpid, hpdel⟩ := getDoc_eq_some hp
        have hscope := h.inScope d hdm p hpm (hpid.trans hparent.symm) (hpdel.trans hddel.symm)
        rw [hparent, h.climb_eq_ok hn hp hscope (by omega), Nat.add_comm]
        intro x hx k hbelow
        obtain rfl := List.mem_singleton.1 hx
        exact (Depth.child hup hn).not_below (.step hup hbelow)
  have hheight : m + subtreeHeight db d.id - 1 ≤ 5 := by
    rw [subtreeHeight, hdid, hd]
    show m + heightFrom db 5 [id] - 1 ≤ 5
    refine h.heightFrom_le hm fun c hc => ?_
    rw [List.mem_singleton.1 hc, ← hdid]
    exact hdepth
  rw [validateDocParent, hclimb]
  show (if m + subtreeHeight db d.id - 1 > 5 then _ else _) = _
  rw [if_neg (by omega)]
  rfl

end Tree

/-- **A deleted doc is restored as it was**, whatever calls that leave its batch and its parents
alone come in between, unless a generated lab doc has taken a title: all that was deleted is
restored and nothing else, if the doc was in its place and no doc under it was in the trash with the
same time. -/
theorem trash_round_trip {s : AccessDb} {id stamp : Bytes} {d : DocRecord}
    (hd : getDoc s.db id = some d)
    (hplace : treeMachine.Reachable s.db ∨
      (storeMachine.Reachable s ∧ validateDocParent s.db d d.parentId = .ok ()))
    (hno : ∀ e, ¬ Collision s.db id stamp e) :
    ∃ db₁, softDeleteDoc s.db id stamp = .ok db₁ ∧
      (∀ a, ((getDoc s.db a).isSome = true ∧ getDoc db₁ a = none) ↔
        ∃ r ∈ markedSubtree s.db id none, r.id = a) ∧
      ∀ evs t, (quietMachine s.db id stamp).Run { s with db := db₁ } evs t →
        restoreDeletedDoc t.db id =
            (if clashes t.db (markedSubtree s.db id none) then .error .generatedDocExists
            else .ok (restoredDb s.db id t.db)) ∧
          (∀ r ∈ markedSubtree s.db id none, r ∈ (restoredDb s.db id t.db).docs) ∧
          ∀ e ∈ t.db.docs, e.isIn (markedSubtree s.db id none) = false →
            e ∈ (restoredDb s.db id t.db).docs := by
  -- what the check of the parent would have found before the deletion
  obtain ⟨hu, hvalid⟩ : UniqueIds s.db ∧ validateDocParent s.db d d.parentId = .ok () := by
    rcases hplace with htree | ⟨hstore, hvalid⟩
    · have hinv : TreeInv s.db :=
        htree.invariant (fun _ hi => TreeInv.init hi) (fun _ _ _ hi hs => hi.step hs)
      exact ⟨hinv.unique, hinv.validateDocParent_self hd⟩
    · exact ⟨storeMachine_unique hstore, hvalid⟩
  refine ⟨_, softDeleteDoc_eq_ok.2 ⟨by rw [hd]; rfl, rfl⟩, fun a => softDelete_removes hu, ?_⟩
  intro evs t hrun
  have hu₁ : UniqueIds (updateDocs s.db (DocRecord.isIn (markedSubtree s.db id none))
      (DocRecord.withDeletedAt (some stamp))) := hu.updateDocs _ fun _ => rfl
  obtain ⟨hut, hsep, huntouched⟩ := quiet_run hu₁ (Separate.softDelete hu hno)
    (Untouched.softDelete hu hd hvalid) hrun
  refine ⟨restore_untouched hut hd hvalid hsep huntouched,
    fun r hr => mem_restoredDb huntouched.batch hr, fun e he hnot => ?_⟩
  exact mem_updateDocs.2 ⟨e, he, if_neg (by rw [hnot]; exact Bool.false_ne_true)⟩

/-- The notes, of which the lower one is in the trash. -/
def trashedChildDb : Db :=
  { notesDb with
    docs := [rootNote.toRecord 0, (childNote.toRecord 1).withDeletedAt (some (bytes "s"))] }

/-- A note that is created while the other ones are in the trash. -/
def otherNote : HumanDoc := ⟨bytes "q", bytes "Other", [], [], bytes "three", bytes "u"⟩

/-- The upper note is deleted too. -/
def trashedNotesDb : Db :=
  { trashedChildDb with
    docs := [(rootNote.toRecord 0).withDeletedAt (some (bytes "t")),
      (childNote.toRecord 1).withDeletedAt (some (bytes "s"))] }

/-- The other note is created. -/
def otherNoteDb : Db :=
  { trashedNotesDb with
    docs := trashedNotesDb.docs ++ [otherNote.toRecord 2]
    versions := notesDb.versions ++ [⟨bytes "q", 1, bytes "three", bytes "u", bytes "create"⟩] }

theorem trashedChildDb_reachable : treeMachine.Reachable trashedChildDb := by
  refine notesDb_reachable.step (a := TreeEvent.softDelete (bytes "c") (bytes "s"))
    ⟨?_, Or.inl rfl⟩
  intro d hd
  rcases List.mem_pair.1 hd with rfl | rfl <;> exact nofun

/-- A note is deleted, another one is created, and the first one is restored; the note under it that
was in the trash stays there. -/
theorem trash_round_trip_sample :
    softDeleteDoc trashedChildDb (bytes "p") (bytes "t") = .ok trashedNotesDb ∧
      createHumanDoc trashedNotesDb otherNote (bytes "n") 2 = .ok otherNoteDb ∧
      restoreDeletedDoc otherNoteDb (bytes "p") =
        .ok (restoredDb trashedChildDb (bytes "p") otherNoteDb) ∧
      (restoredDb trashedChildDb (bytes "p") otherNoteDb).docs =
        trashedChildDb.docs ++ [otherNote.toRecord 2] := by
  have hbatch : markedSubtree trashedChildDb (bytes "p") none = [rootNote.toRecord 0] := by
    decide
  have hno : ∀ e, ¬ Collision trashedChildDb (bytes "p") (bytes "t") e := by
    rintro e ⟨he, hdel, -⟩
    rcases List.mem_pair.1 he with rfl | rfl
    · cases hdel
    · exact absurd hdel (by decide)
  have hroot : getDoc (⟨trashedChildDb, [], []⟩ : AccessDb).db (bytes "p") =
    some (rootNote.toRecord 0) := rfl
  have hdelete : softDeleteDoc trashedChildDb (bytes "p") (bytes "t") = .ok trashedNotesDb := rfl
  have hcreate : createHumanDoc trashedNotesDb otherNote (bytes "n") 2 = .ok otherNoteDb := by
    refine createHumanDoc_eq_ok.2 ⟨?_, rfl⟩
    show climb _ (otherNote.toRecord 2) 1 [bytes "q"] [] >>= _ = _
    rw [climb_nil]
    rfl
  have hrun : (quietMachine trashedChildDb (bytes "p") (bytes "t")).Run ⟨trashedNotesDb, [], []⟩
      [.docs (.createHuman otherNote (bytes "n") 2)] ⟨otherNoteDb, [], []⟩ := by
    refine .single ⟨⟨trivial, Or.inl ?_⟩, ?_, ?_⟩
    · rw [AccessEvent.run, DocOp.run, hcreate]
      rfl
    · intro r hr
      rw [hbatch, List.mem_singleton] at hr
      subst hr
      exact List.mem_cons_self
    · intro p k _ hbelow
      have hup : parentOf trashedChildDb (bytes "p") = none := rfl
      generalize bytes "p" = a at hup hbelow
      cases hbelow with
      | step hstep =>
          rw [hup] at hstep
          cases hstep
  obtain ⟨db₁, hdelete', -, hquiet⟩ :=
    trash_round_trip hroot (Or.inl trashedChildDb_reachable) hno
  obtain rfl := Except.ok.inj (hdelete.symm.trans hdelete')
  have hclash : clashes otherNoteDb [rootNote.toRecord 0] = false := by decide
  have hrestore := (hquiet _ _ hrun).1
  dsimp only at hrestore
  rw [hbatch, hclash] at hrestore
  exact ⟨hdelete, hcreate, hrestore, by decide⟩

theorem storeMachine_foldlM {s t : AccessDb} {evs : List AccessEvent} (h : storeMachine.Reachable s)
    (hgiven : ∀ ev ∈ evs, ev.Given) (hrun : evs.foldlM AccessEvent.run s = some t) :
    storeMachine.Reachable t := by
  induction evs generalizing s with
  | nil =>
      obtain rfl := Option.some.inj hrun
      exact h
  | cons ev evs ih =>
      rw [List.foldlM_cons] at hrun
      obtain ⟨u, hu, hrest⟩ := Option.bind_eq_some_iff.1 hrun
      exact ih (h.step ⟨hgiven ev List.mem_cons_self, Or.inl hu⟩)
        (fun e he => hgiven e (List.mem_cons_of_mem _ he)) hrest

/-- A doc that sync has written for a connector. -/
def syncedDoc : DocRecord :=
  { rootNote.toRecord 0 with
    serviceId := bytes "s"
    kind := .service
    origin := .generated }

/-- A note under it, after which the connector is deleted. -/
def leftBehind : List AccessEvent :=
  [.createConnector (bytes "s"), .docs (.createGenerated syncedDoc),
    .docs (.createHuman { childNote with serviceId := bytes "s" } (bytes "n") 1),
    .deleteConnector (bytes "s")]

/-- A note that is deleted before its parent. -/
def deletedFirst : List AccessEvent :=
  [.docs (.createHuman rootNote (bytes "n") 0), .docs (.createHuman childNote (bytes "n") 1),
    .docs (.softDelete (bytes "c") (bytes "t"))]

/-- **Docs that are not restored as they were**: a note under a synced doc whose connector has been
deleted does not pass the check of its parent, and a note that was in the trash already comes out
with its parent if both were deleted at the same time. -/
theorem trash_not_restored :
    (∃ s db₁, storeMachine.Reachable s ∧ (getDoc s.db (bytes "c")).isSome = true ∧
      softDeleteDoc s.db (bytes "c") (bytes "t") = .ok db₁ ∧
      restoreDeletedDoc db₁ (bytes "c") = .error (.hierarchy .humanParent)) ∧
    ∃ s db₁ db₂, storeMachine.Reachable s ∧ (getDoc s.db (bytes "p")).isSome = true ∧
      getDoc s.db (bytes "c") = none ∧ softDeleteDoc s.db (bytes "p") (bytes "t") = .ok db₁ ∧
      restoreDeletedDoc db₁ (bytes "p") = .ok db₂ ∧ (getDoc db₂ (bytes "c")).isSome = true := by
  have hinit : storeMachine.Reachable ⟨⟨[], [], [], []⟩, [], []⟩ := .of_init rfl
  constructor
  · have hcheck : (leftBehind.foldlM AccessEvent.run ⟨⟨[], [], [], []⟩, [], []⟩).map (fun s =>
        ((getDoc s.db (bytes "c")).isSome, (softDeleteDoc s.db (bytes "c") (bytes "t")).toOption.map
          fun db₁ => (restoreDeletedDoc db₁ (bytes "c")).map fun _ => ())) =
        some (true, some (.error (.hierarchy .humanParent))) := by
      decide +kernel
    obtain ⟨s, hs, hcheck⟩ := Option.map_eq_some_iff.1 hcheck
    obtain ⟨hsome, hrest⟩ := Prod.mk.inj hcheck
    obtain ⟨db₁, hdelete, hrestore⟩ := Option.map_eq_some_iff.1 hrest
    refine ⟨s, db₁, storeMachine_foldlM hinit ?_ hs, hsome, toOption_eq_some hdelete, ?_⟩
    · intro ev hev
      simp only [leftBehind, List.mem_cons, List.not_mem_nil, or_false] at hev
      rcases hev with rfl | rfl | rfl | rfl
      · trivial
      · exact ⟨rfl, rfl⟩
      · trivial
      · trivial
    · cases hr : restoreDeletedDoc db₁ (bytes "c") with
      | ok db₂ => rw [hr] at hrestore; cases hrestore
      | error e =>
          rw [hr] at hrestore
          exact congrArg Except.error (Except.error.inj hrestore)
  · have hcheck : (deletedFirst.foldlM AccessEvent.run ⟨⟨[], [], [], []⟩, [], []⟩).map (fun s =>
        ((getDoc s.db (bytes "p")).isSome, getDoc s.db (bytes "c"),
          (softDeleteDoc s.db (bytes "p") (bytes "t")).toOption.map fun db₁ =>
            (restoreDeletedDoc db₁ (bytes "p")).toOption.map fun db₂ =>
              (getDoc db₂ (bytes "c")).isSome)) =
        some (true, none, some (some true)) := by
      decide +kernel
    obtain ⟨s, hs, hcheck⟩ := Option.map_eq_some_iff.1 hcheck
    obtain ⟨hsome, hrest⟩ := Prod.mk.inj hcheck
    obtain ⟨hnone, hrest⟩ := Prod.mk.inj hrest
    obtain ⟨db₁, hdelete, hrest⟩ := Option.map_eq_some_iff.1 hrest
    obtain ⟨db₂, hrestore, hactive⟩ := Option.map_eq_some_iff.1 hrest
    refine ⟨s, db₁, db₂, storeMachine_foldlM hinit ?_ hs, hsome, hnone, toOption_eq_some hdelete,
      toOption_eq_some hrestore, hactive⟩
    intro ev hev
    simp only [deletedFirst, List.mem_cons, List.not_mem_nil, or_false] at hev
    rcases hev with rfl | rfl | rfl <;> trivial

end WiseLabz.Store
