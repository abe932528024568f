/-
**Which docs a user sees.**

A doc of a connector is shown to the users with a grant on it, a human doc without a connector to
all users.  The deletion of a connector takes its docs' connector away.

Main definitions:

* `Store.AccessDb` — the docs, the connectors and the grants;
* `Store.listViewableDocs`, `Store.timelineDocs` — **what a user is shown**;
* `Store.AccessEvent` — the calls that write docs, connectors and grants;
* `Store.Hidden` — nobody can show the doc to the user;
* `Store.AccessEvent.Reveals` — the calls that show a hidden doc.

Main results:

* `Store.DocOp.frame` — which docs' connectors and origins a call on the docs changes;
* `Store.hidden_run` — **a hidden doc stays hidden**, if no call reveals it;
* `Store.deleteConnector_shows_doc` — the deletion of a connector shows its human docs.
-/

import WiseLabz.Lib.Machine
import WiseLabz.Store.Hierarchy

set_option relaxedAutoImplicit false
set_option autoImplicit false

namespace WiseLabz.Store

open Lib

/-! ### Grants and views -/

/-- A user's role on a connector, from one source. -/
structure ConnectorGrant where
  userId : Bytes
  connectorId : Bytes
  role : Bytes
  source : Bytes
  deriving DecidableEq, Repr

structure AccessDb where
  db : Db
  connectors : List Bytes
  grants : List ConnectorGrant

/-- Who asks: a user, whether an instance admin, and the connectors that the API key of the request
is restricted to, if any. -/
structure Caller where
  userId : Bytes
  admin : Bool
  keyConnectors : List Bytes

/-- A restricted key never counts as an instance admin. -/
def Caller.instanceAdmin (c : Caller) : Bool := c.admin && c.keyConnectors.isEmpty

/-- `apiKeyConnectorFilter`: no connector (`NULL`) passes no restriction. -/
def Caller.passes (c : Caller) (serviceId : Bytes) : Bool :=
  c.keyConnectors.isEmpty || (serviceId != [] && c.keyConnectors.contains serviceId)

/-- Whether the user holds a grant on the connector of a doc; no connector has no grant. -/
def granted (s : AccessDb) (userId serviceId : Bytes) : Bool :=
  serviceId != [] && s.grants.any fun g => g.userId == userId && g.connectorId == serviceId

/-- `viewableDocWhere`. -/
def viewableDoc (s : AccessDb) (c : Caller) (search : Bytes) (d : DocRecord) : Bool :=
  d.deletedAt.isNone && d.titleContains search &&
    ((granted s c.userId d.serviceId && c.passes d.serviceId) ||
      (d.serviceId == [] && (c.instanceAdmin || d.origin == .human)))

/-- `ORDER BY updated_at DESC, id DESC`. -/
def DocRecord.notOlder (d d' : DocRecord) : Prop :=
  d'.updatedAt < d.updatedAt ∨ (d'.updatedAt = d.updatedAt ∧ ¬ d.id < d'.id)

instance (d d' : DocRecord) : Decidable (d.notOlder d') := inferInstanceAs (Decidable (_ ∨ _))

/-- **`ListViewableDocs`**, and with contents `ListViewableDocsWithContent`: one page. -/
def listViewableDocs (s : AccessDb) (c : Caller) (search : Bytes) (offset limit : ℕ) :
    List DocRecord :=
  (((s.db.docs.filter (viewableDoc s c search)).insertionSort DocRecord.notOlder).drop offset).take
    limit

/-- The roles that show a connector's rows in the timeline. -/
def timelineRoles : List Bytes := [bytes "viewer", bytes "operator"]

/-- `timelineScope` of the docs, which are shown lab-wide if they have no connector. -/
def timelineScope (s : AccessDb) (c : Caller) (serviceId : Bytes) : Bool :=
  (serviceId == [] ||
    s.grants.any fun g => g.connectorId == serviceId && g.userId == c.userId &&
      timelineRoles.contains g.role) &&
    c.passes serviceId

/-- **The docs branch of the timeline**: the versions of active docs. -/
def timelineDocs (s : AccessDb) (c : Caller) : List (DocVersionRecord × DocRecord) :=
  s.db.versions.flatMap fun v =>
    (s.db.docs.filter fun d => d.id == v.docId && d.deletedAt.isNone &&
      (c.instanceAdmin || d.serviceId != [] || d.origin == .human) &&
      timelineScope s c d.serviceId).map fun d => (v, d)

/-! ### Calls -/

/-- A call that writes the docs. -/
inductive DocOp
  | createHuman (d : HumanDoc) (newId : Bytes) (now : ℕ)
  | createGenerated (d : DocRecord)
  | importDocs (docs : List (HumanDoc × Bytes)) (now : ℕ)
  | updateMetadata (id : Bytes) (title parentId : Option Bytes) (now : ℕ)
  | updateContent (id content : Bytes) (expectedVersion : Option ℕ) (author trigger : Bytes) (now : ℕ)
  | approve (id reviewerId : Bytes) (now : ℕ)
  | render (id : Bytes) (r : GeneratedRender) (now : ℕ)
  | touch (id : Bytes) (genKeys : List Bytes) (now : ℕ)
  | fingerprint (id print : Bytes) (content : Option Bytes) (expectedVersion : ℕ)
  | setOrigin (id : Bytes) (origin : DocOrigin)
  | softDelete (id stamp : Bytes)
  | restore (id : Bytes)
  /-- A statement of a purge. -/
  | purge (cutoff : Bytes) (batch : List Bytes)

/-- What a call leaves, if it succeeds. -/
def DocOp.run (db : Db) : DocOp → Option Db
  | .createHuman d newId now => (createHumanDoc db d newId now).toOption
  | .createGenerated d => (createDoc db d).toOption
  | .importDocs docs now => (Store.importDocs db docs now).toOption
  | .updateMetadata id title parentId now => (updateDocMetadata db id title parentId now).toOption
  | .updateContent id content version author trigger now =>
      (updateDocWithVersion db id content version author trigger now).toOption.map Prod.fst
  | .approve id reviewerId now =>
      (approveDocEditProposal db id reviewerId now).toOption.map Prod.fst
  | .render id r now => (applyGeneratedRender db id r now).toOption.map Prod.fst
  | .touch id genKeys now => some (touchDocSynced db id genKeys now)
  | .fingerprint id print content version =>
      (setDocTopologyFingerprint db id print content version).toOption
  | .setOrigin id origin => (setDocOrigin db id origin).toOption
  | .softDelete id stamp => (softDeleteDoc db id stamp).toOption
  | .restore id => (restoreDeletedDoc db id).toOption
  | .purge cutoff batch => some (purgeDeletedDocs db cutoff batch)

/-- A call that writes docs, connectors or grants. -/
inductive AccessEvent
  | docs (op : DocOp)
  | createConnector (id : Bytes)
  | deleteConnector (id : Bytes)
  | upsertGrant (g : ConnectorGrant)
  | deleteGrant (userId connectorId source : Bytes)

/-- A doc whose connector is gone: `ON DELETE SET NULL`. -/
def DocRecord.withoutService (id : Bytes) (d : DocRecord) : DocRecord :=
  if d.serviceId = id then { d with serviceId := [] } else d

/-- **`DeleteConnector`**: its grants go with it, its docs stay. -/
def deleteConnector (s : AccessDb) (id : Bytes) : Option AccessDb :=
  if s.connectors.contains id then
    some
      { db := { s.db with docs := s.db.docs.map (DocRecord.withoutService id) }
        connectors := s.connectors.filter (· ≠ id)
        grants := s.grants.filter fun g => g.connectorId ≠ id }
  else none

/-- One row for each user, connector and source. -/
def upsertGrant (s : AccessDb) (g : ConnectorGrant) : Option AccessDb :=
  if s.connectors.contains g.connectorId then
    some { s with
      grants := (s.grants.filter fun h => ¬ (h.userId = g.userId ∧ h.connectorId = g.connectorId ∧
        h.source = g.source)) ++ [g] }
  else none

def AccessEvent.run (s : AccessDb) : AccessEvent → Option AccessDb
  | .docs op => (op.run s.db).map fun db => { s with db := db }
  | .createConnector id =>
      if id = [] ∨ s.connectors.contains id then none
      else some { s with connectors := s.connectors ++ [id] }
  | .deleteConnector id => Store.deleteConnector s id
  | .upsertGrant g => Store.upsertGrant s g
  | .deleteGrant userId connectorId source =>
      some { s with
        grants := s.grants.filter fun h => ¬ (h.userId = userId ∧ h.connectorId = connectorId ∧
          h.source = source) }

/-! ### Hidden docs -/

/-- The doc is created by a call on the docs. -/
def DocOp.Creates (x : Bytes) : DocOp → Prop
  | .createHuman d newId _ => (if d.id = [] then newId else d.id) = x
  | .createGenerated d => d.id = x
  | .importDocs docs _ => ∃ d ∈ docs, (if d.1.id = [] then d.2 else d.1.id) = x
  | _ => False

/-- The call gives the user no grant and does not create the doc. -/
def AccessEvent.Permitted (userId x : Bytes) : AccessEvent → Prop
  | .docs op => ¬ op.Creates x
  | .upsertGrant g => g.userId ≠ userId
  | _ => True

/-- The calls on docs, connectors and grants that neither give the user a grant nor create the doc,
in any order; a call may also fail. -/
def accessMachine (userId x : Bytes) : Machine AccessDb AccessEvent where
  init _ := True
  step s ev t := ev.Permitted userId x ∧ (ev.run s = some t ∨ t = s)

/-- A call on the docs makes the doc human. -/
def DocOp.MakesHuman (x : Bytes) : DocOp → Prop
  | .setOrigin id origin => id = x ∧ origin = .human
  | .render id r _ => id = x ∧ r.origin = some .human
  | _ => False

/-- **The calls that reveal a doc**: those that take the connector of a human doc away, and those
that make a doc human which has none. -/
def AccessEvent.Reveals (x : Bytes) (s : AccessDb) : AccessEvent → Prop
  | .docs op => op.MakesHuman x ∧ ∃ d ∈ s.db.docs, d.id = x ∧ d.serviceId = []
  | .deleteConnector id => ∃ d ∈ s.db.docs, d.id = x ∧ d.serviceId = id ∧ d.origin = .human
  | _ => False

/-- The user has no grant on the doc's connector, and without a connector the doc is generated. -/
def Hidden (userId x : Bytes) (s : AccessDb) : Prop :=
  ∀ d ∈ s.db.docs, d.id = x →
    granted s userId d.serviceId = false ∧ (d.serviceId = [] → d.origin = .generated)

/-! ### What a call on the docs changes -/

/-- The docs of an id come from docs of that id with the same connector, and are human only if those
were, or if `P`. -/
def Follows (x : Bytes) (P : Prop) (db db' : Db) : Prop :=
  ∀ d' ∈ db'.docs, d'.id = x → ∃ d ∈ db.docs, d.id = x ∧ d'.serviceId = d.serviceId ∧
    (d'.origin = .human → d.origin = .human ∨ P)

section Follows

variable {x : Bytes} {P : Prop} {db db' db'' : Db}

theorem Follows.of_docs (h : db'.docs = db.docs) : Follows x P db db' :=
  fun d' hd' hx => ⟨d', h ▸ hd', hx, rfl, Or.inl⟩

theorem Follows.trans (h : Follows x P db db') (h' : Follows x P db' db'') : Follows x P db db'' := by
  intro d'' hd'' hx
  obtain ⟨d', hd', hx', hservice', horigin'⟩ := h' d'' hd'' hx
  obtain ⟨d, hd, hx, hservice, horigin⟩ := h d' hd' hx'
  exact ⟨d, hd, hx, hservice'.trans hservice, fun ho => (horigin' ho).elim horigin Or.inr⟩

theorem Follows.updateDocs {p : DocRecord → Bool} {f : DocRecord → DocRecord}
    (hid : ∀ d, (f d).id = d.id) (hservice : ∀ d, (f d).serviceId = d.serviceId)
    (horigin : ∀ d, p d = true → d.id = x → (f d).origin = .human → d.origin = .human ∨ P) :
    Follows x P db (updateDocs db p f) := by
  intro d' hd' hx
  obtain ⟨d, hd, rfl⟩ := mem_updateDocs.1 hd'
  by_cases hp : p d = true
  · rw [if_pos hp] at hx ⊢
    exact ⟨d, hd, (hid d).symm.trans hx, hservice d,
      horigin d hp ((hid d).symm.trans hx)⟩
  · rw [if_neg hp] at hx ⊢
    exact ⟨d, hd, hx, rfl, Or.inl⟩

theorem Follows.append {d : DocRecord} (hdocs : db'.docs = db.docs ++ [d]) (hd : d.id ≠ x) :
    Follows x P db db' := by
  intro d' hd' hx
  rw [hdocs] at hd'
  rcases List.mem_append.1 hd' with hd' | hd'
  · exact ⟨d', hd', hx, rfl, Or.inl⟩
  · exact absurd (List.mem_singleton.1 hd' ▸ hx) hd

theorem Follows.updateDocContent {id content : Bytes} {version : Option ℕ} {now rev : ℕ}
    (h : updateDocContent db id content version now = .ok (db', rev)) : Follows x P db db' := by
  obtain ⟨-, -, -, rfl⟩ := updateDocContent_eq_ok.1 h
  exact .updateDocs (fun _ => rfl) (fun _ => rfl) fun _ _ _ => Or.inl

theorem Follows.createDocVersion {v : DocVersionRecord} (h : createDocVersion db v = .ok db') :
    Follows x P db db' := by
  obtain ⟨-, -, rfl⟩ := createDocVersion_eq_ok.1 h
  exact .of_docs rfl

theorem Follows.insertHumanDoc {d : DocRecord} {newId trigger : Bytes}
    (h : insertHumanDoc db d newId trigger = .ok db') (hd : (d.withNewId newId).id ≠ x) :
    Follows x P db db' := by
  obtain ⟨-, -, rfl⟩ := insertHumanDoc_eq_ok h
  exact .append rfl hd

theorem Follows.importDocs {docs : List (HumanDoc × Bytes)} {now : ℕ}
    (h : importDocs db docs now = .ok db')
    (hd : ∀ d ∈ docs, (if d.1.id = [] then d.2 else d.1.id) ≠ x) : Follows x P db db' := by
  have hrun : docs.foldlM (importDoc now) db = .ok db' := h
  clear h
  induction docs generalizing db with
  | nil =>
      rw [List.foldlM_nil, pure_eq_ok] at hrun
      exact hrun ▸ .of_docs rfl
  | cons d docs ih =>
      rw [List.foldlM_cons] at hrun
      obtain ⟨db₁, hdoc, hrest⟩ := bind_eq_ok.1 hrun
      rw [importDoc, check_bind_eq_ok, mapError_eq_ok] at hdoc
      have hfirst : Follows x P db db₁ := .insertHumanDoc hdoc.2 (hd d (by simp))
      exact hfirst.trans (ih (fun e he => hd e (List.mem_cons_of_mem _ he)) hrest)

end Follows

theorem toOption_eq_some {ε α : Type} {r : Except ε α} {a : α} (h : r.toOption = some a) :
    r = .ok a := by
  cases r with
  | error e => exact absurd h (by simp [Except.toOption])
  | ok b => rw [Option.some.inj h]

/-- **Which docs' connectors and origins a call on the docs changes**: none, except that it may make a
doc human. -/
theorem DocOp.frame {op : DocOp} {x : Bytes} {db db' : Db} (h : op.run db = some db')
    (hcreates : ¬ op.Creates x) : Follows x (op.MakesHuman x) db db' := by
  cases op with
  | createHuman d newId now =>
      exact .insertHumanDoc (createHumanDoc_eq_ok.1 (toOption_eq_some h)).2 hcreates
  | createGenerated d =>
      obtain ⟨-, -, rfl⟩ := createDoc_eq_ok.1 (toOption_eq_some h)
      exact .append rfl hcreates
  | importDocs docs now =>
      exact .importDocs (toOption_eq_some h) fun d hd heq => hcreates ⟨d, hd, heq⟩
  | updateMetadata id title parentId now =>
      obtain ⟨-, -, -, rfl, -⟩ := updateDocMetadata_eq_ok (toOption_eq_some h)
      exact .updateDocs (fun _ => rfl) (fun _ => rfl) fun _ _ _ => Or.inl
  | updateContent id content version author trigger now =>
      obtain ⟨⟨db₂, rev⟩, hrun, rfl⟩ := Option.map_eq_some_iff.1 h
      obtain ⟨db₁, hcontent, hversion⟩ := updateDocWithVersion_eq_ok.1 (toOption_eq_some hrun)
      exact (Follows.updateDocContent hcontent).trans (.createDocVersion hversion)
  | approve id reviewerId now =>
      obtain ⟨⟨db₂, rev⟩, hrun, rfl⟩ := Option.map_eq_some_iff.1 h
      obtain ⟨p, proposals, db₁, hcontent, hversion⟩ :=
        approveDocEditProposal_eq_ok (toOption_eq_some hrun)
      have hproposals : Follows x (DocOp.MakesHuman x (.approve id reviewerId now)) db
          { db with proposals := proposals } := .of_docs rfl
      exact hproposals.trans ((Follows.updateDocContent hcontent).trans (.createDocVersion hversion))
  | render id r now =>
      obtain ⟨⟨db₂, rev⟩, hrun, rfl⟩ := Option.map_eq_some_iff.1 h
      obtain ⟨db₁, db₃, hcontent, hversion, rfl⟩ :=
        applyGeneratedRender_eq_ok.1 (toOption_eq_some hrun)
      refine (Follows.updateDocContent hcontent).trans ((Follows.createDocVersion hversion).trans
        (.updateDocs (fun _ => rfl) (fun _ => rfl) ?_))
      intro d hp hx horigin
      simp only [DocRecord.withRender] at horigin
      cases ho : r.origin with
      | none => exact Or.inl (by simpa [ho] using horigin)
      | some o =>
          have hid : d.id = id := beq_iff_eq.1 hp
          rw [ho, Option.getD_some] at horigin
          exact Or.inr ⟨hid.symm.trans hx, by rw [ho, horigin]⟩
  | touch id genKeys now =>
      obtain rfl := Option.some.inj h
      exact .updateDocs (fun _ => rfl) (fun _ => rfl) fun _ _ _ => Or.inl
  | fingerprint id print content version =>
      have hok := toOption_eq_some h
      unfold setDocTopologyFingerprint at hok
      split at hok
      · obtain rfl := Except.ok.inj hok
        exact .updateDocs (fun _ => rfl) (fun _ => rfl) fun _ _ _ => Or.inl
      · split at hok <;> cases hok
  | setOrigin id origin =>
      have hok := toOption_eq_some h
      unfold setDocOrigin at hok
      split at hok
      · obtain rfl := Except.ok.inj hok
        refine .updateDocs (fun _ => rfl) (fun _ => rfl) fun d hp hx horigin => Or.inr ?_
        have hid : d.id = id := beq_iff_eq.1 hp
        exact ⟨hid.symm.trans hx, horigin⟩
      · cases hok
  | softDelete id stamp =>
      obtain ⟨-, rfl⟩ := softDeleteDoc_eq_ok.1 (toOption_eq_some h)
      exact .updateDocs (fun _ => rfl) (fun _ => rfl) fun _ _ _ => Or.inl
  | restore id =>
      obtain ⟨d, -, rfl, -⟩ := restoreDeletedDoc_eq_ok (toOption_eq_some h)
      have hdetach : Follows x (DocOp.MakesHuman x (.restore id)) db (detachFromInactive db d) := by
        unfold detachFromInactive
        split
        · exact .updateDocs (fun _ => rfl) (fun _ => rfl) fun _ _ _ => Or.inl
        · exact .of_docs rfl
      exact hdetach.trans (.updateDocs (fun _ => rfl) (fun _ => rfl) fun _ _ _ => Or.inl)
  | purge cutoff batch =>
      obtain rfl := Option.some.inj h
      intro d' hd' hx
      obtain ⟨d, hd, rfl⟩ := List.mem_map.1 hd'
      have hdocs : d ∈ db.docs := List.mem_of_mem_filter hd
      unfold DocRecord.orphanedIn at hx ⊢
      split at hx
      · next hparent => exact ⟨d, hdocs, hx, by rw [if_pos hparent], fun ho => Or.inl (by rwa [if_pos hparent] at ho)⟩
      · next hparent => exact ⟨d, hdocs, hx, by rw [if_neg hparent]; rfl, fun ho => Or.inl (by rwa [if_neg hparent] at ho)⟩

/-! ### Runs -/

section Hidden

variable {userId x : Bytes}

theorem granted_eq_false {s : AccessDb} {serviceId : Bytes} :
    granted s userId serviceId = false ↔
      (serviceId ≠ [] → ∀ g ∈ s.grants, g.userId = userId → g.connectorId ≠ serviceId) := by
  simp only [granted, Bool.and_eq_false_iff, List.any_eq_false, bne_eq_false_iff_eq,
    Bool.and_eq_true, beq_iff_eq, not_and, or_iff_not_imp_left]

/-- Fewer grants of the user on a doc's connector hide it as well. -/
theorem Hidden.of_grants {s t : AccessDb} (h : Hidden userId x s) (hdocs : t.db.docs = s.db.docs)
    (hgrants : ∀ g ∈ t.grants, g.userId = userId → g ∈ s.grants) : Hidden userId x t := by
  intro d hd hx
  obtain ⟨hgranted, horigin⟩ := h d (hdocs ▸ hd) hx
  rw [granted_eq_false] at hgranted
  refine ⟨granted_eq_false.2 fun hne g hg hu => ?_, horigin⟩
  exact hgranted hne g (hgrants g hg hu) hu

/-- **A call that does not reveal the doc keeps it hidden.** -/
theorem Hidden.step {s t : AccessDb} {ev : AccessEvent} (h : Hidden userId x s)
    (hpermitted : ev.Permitted userId x) (hrun : ev.run s = some t) (hreveals : ¬ ev.Reveals x s) :
    Hidden userId x t := by
  cases ev with
  | docs op =>
      obtain ⟨db, hop, rfl⟩ := Option.map_eq_some_iff.1 hrun
      intro d' hd' hx
      obtain ⟨d, hd, hdx, hservice, horigin⟩ := op.frame hop hpermitted d' hd' hx
      obtain ⟨hgranted, hgenerated⟩ := h d hd hdx
      refine ⟨hservice ▸ hgranted, fun hnone => ?_⟩
      cases ho : d'.origin with
      | generated => rfl
      | human =>
          rw [hservice] at hnone
          rcases horigin ho with hhuman | hmakes
          · exact absurd (hhuman.symm.trans (hgenerated hnone)) (by simp)
          · exact absurd ⟨hmakes, d, hd, hdx, hnone⟩ hreveals
  | createConnector id =>
      simp only [AccessEvent.run] at hrun
      split at hrun
      · cases hrun
      · obtain rfl := Option.some.inj hrun
        exact h.of_grants rfl fun g hg _ => hg
  | deleteConnector id =>
      simp only [AccessEvent.run, Store.deleteConnector] at hrun
      split at hrun
      · obtain rfl := Option.some.inj hrun
        intro d' hd' hx
        obtain ⟨d, hd, rfl⟩ := List.mem_map.1 hd'
        by_cases hservice : d.serviceId = id
        · -- the doc loses its connector, so it must not be human
          rw [DocRecord.withoutService, if_pos hservice] at hx ⊢
          refine ⟨rfl, fun _ => ?_⟩
          cases ho : d.origin with
          | generated => rfl
          | human => exact absurd ⟨d, hd, hx, hservice, ho⟩ hreveals
        · rw [DocRecord.withoutService, if_neg hservice] at hx ⊢
          obtain ⟨hgranted, hgenerated⟩ := h d hd hx
          rw [granted_eq_false] at hgranted
          exact ⟨granted_eq_false.2 fun hne g hg hu =>
            hgranted hne g (List.mem_of_mem_filter hg) hu, hgenerated⟩
      · cases hrun
  | upsertGrant g =>
      simp only [AccessEvent.run, Store.upsertGrant] at hrun
      split at hrun
      · obtain rfl := Option.some.inj hrun
        refine h.of_grants rfl fun g' hg' hu => ?_
        rcases List.mem_append.1 hg' with hg' | hg'
        · exact List.mem_of_mem_filter hg'
        · exact absurd (List.mem_singleton.1 hg' ▸ hu) hpermitted
      · cases hrun
  | deleteGrant user connectorId source =>
      obtain rfl := Option.some.inj hrun
      exact h.of_grants rfl fun g hg _ => List.mem_of_mem_filter hg

/-- Nobody shows a hidden doc to the user. -/
theorem Hidden.not_shown {s : AccessDb} (h : Hidden userId x s) {c : Caller} (hc : c.userId = userId)
    (hadmin : c.admin = false) :
    (∀ search offset limit, ∀ d ∈ listViewableDocs s c search offset limit, d.id ≠ x) ∧
      ∀ r ∈ timelineDocs s c, r.2.id ≠ x := by
  have hnoadmin : c.instanceAdmin = false := by rw [Caller.instanceAdmin, hadmin, Bool.false_and]
  constructor
  · intro search offset limit d hd hx
    have hmem := List.mem_of_mem_drop (List.mem_of_mem_take hd)
    rw [List.mem_insertionSort, List.mem_filter] at hmem
    obtain ⟨hdocs, hview⟩ := hmem
    obtain ⟨hgranted, hgenerated⟩ := h d hdocs hx
    simp only [viewableDoc, hc, hgranted, hnoadmin, Bool.false_and, Bool.false_or, Bool.and_eq_true,
      beq_iff_eq] at hview
    obtain ⟨-, hnone, hhuman⟩ := hview
    exact absurd (hhuman.symm.trans (hgenerated hnone)) (by simp)
  · rintro ⟨v, d⟩ hr hx
    obtain ⟨v', -, hmem⟩ := List.mem_flatMap.1 hr
    obtain ⟨d', hd', heq⟩ := List.mem_map.1 hmem
    obtain ⟨rfl, rfl⟩ := Prod.mk.inj heq
    obtain ⟨hdocs, hview⟩ := List.mem_filter.1 hd'
    obtain ⟨hgranted, hgenerated⟩ := h d' hdocs hx
    rw [granted_eq_false] at hgranted
    simp only [timelineScope, hnoadmin, Bool.false_or, Bool.and_eq_true, Bool.or_eq_true,
      List.any_eq_true, bne_iff_ne, beq_iff_eq] at hview
    obtain ⟨⟨-, hbranch⟩, hscope, -⟩ := hview
    by_cases hnone : d'.serviceId = []
    · rcases hbranch with hne | hhuman
      · exact hne hnone
      · exact absurd (hhuman.symm.trans (hgenerated hnone)) (by simp)
    · rcases hscope with hnil | ⟨g, hg, ⟨hconnector, huser⟩, -⟩
      · exact hnone hnil
      · exact hgranted hnone g hg (huser.trans hc) hconnector

/-- **A hidden doc stays hidden**: if the doc has a connector on which the user has no grant, no run
whose calls do not reveal it shows it to the user, unless an instance admin. -/
theorem hidden_run {s t : AccessDb} {evs : List AccessEvent}
    (hservice : ∀ d ∈ s.db.docs, d.id = x → d.serviceId ≠ [] ∧ granted s userId d.serviceId = false)
    (hrun : ((accessMachine userId x).restrict fun s ev => ¬ ev.Reveals x s).Run s evs t)
    {c : Caller} (hc : c.userId = userId) (hadmin : c.admin = false) :
    (∀ search offset limit, ∀ d ∈ listViewableDocs t c search offset limit, d.id ≠ x) ∧
      ∀ r ∈ timelineDocs t c, r.2.id ≠ x := by
  have hstart : Hidden userId x s := fun d hd hx =>
    ⟨(hservice d hd hx).2, fun hnone => absurd hnone (hservice d hd hx).1⟩
  have hend : Hidden userId x t := by
    refine hrun.invariant (fun s ev t hs hstep => ?_) hstart
    obtain ⟨hreveals, hpermitted, hstep | rfl⟩ := Machine.restrict_step.1 hstep
    · exact hs.step hpermitted hstep hreveals
    · exact hs
  exact hend.not_shown hc hadmin

end Hidden

/-- A human note on a connector on which nobody holds a grant. -/
def serviceNote : HumanDoc := ⟨bytes "d", bytes "Notes", bytes "c", [], bytes "text", bytes "a"⟩

def serviceNoteDb : AccessDb :=
  { db := ⟨[serviceNote.toRecord 0], [⟨bytes "d", 1, bytes "text", bytes "a", bytes "create"⟩], [], []⟩
    connectors := [bytes "c"]
    grants := [] }

/-- A doc that sync has written for the connector. -/
def serviceDocDb : AccessDb :=
  { serviceNoteDb with
    db := { serviceNoteDb.db with
      docs := [{ serviceNote.toRecord 0 with origin := .generated }] } }

/-- The deletion of the connector takes the doc's connector away and shows it to nobody. -/
theorem hidden_run_sample :
    (∀ search offset limit, ∀ d ∈ listViewableDocs
        { db := { serviceDocDb.db with docs := serviceDocDb.db.docs.map fun d =>
            { d with serviceId := [] } }
          connectors := []
          grants := [] } ⟨bytes "u", false, []⟩ search offset limit, d.id ≠ bytes "d") ∧
      ∀ r ∈ timelineDocs
        { db := { serviceDocDb.db with docs := serviceDocDb.db.docs.map fun d =>
            { d with serviceId := [] } }
          connectors := []
          grants := [] } ⟨bytes "u", false, []⟩, r.2.id ≠ bytes "d" := by
  have hservice : ∀ d ∈ serviceDocDb.db.docs, d.id = bytes "d" →
      d.serviceId ≠ [] ∧ granted serviceDocDb (bytes "u") d.serviceId = false := by
    decide
  refine hidden_run hservice (Machine.Run.single (a := AccessEvent.deleteConnector (bytes "c")) ?_)
    rfl rfl
  refine Machine.restrict_step.2 ⟨?_, trivial, Or.inl rfl⟩
  show ¬ ∃ d ∈ serviceDocDb.db.docs, d.id = bytes "d" ∧ d.serviceId = bytes "c" ∧ d.origin = .human
  decide

/-- **The deletion of a connector shows its human docs**: a note is written on a connector, and the
user, who holds no grant, is not shown it before the connector is deleted. -/
theorem deleteConnector_shows_doc :
    [AccessEvent.createConnector (bytes "c"), .docs (.createHuman serviceNote (bytes "n") 0)].foldlM
        AccessEvent.run ⟨⟨[], [], [], []⟩, [], []⟩ = some serviceNoteDb ∧
      granted serviceNoteDb (bytes "u") (bytes "c") = false ∧
      listViewableDocs serviceNoteDb ⟨bytes "u", false, []⟩ [] 0 10 = [] ∧
      ∃ t, (accessMachine (bytes "u") (bytes "d")).Run serviceNoteDb
          [.deleteConnector (bytes "c")] t ∧
        (listViewableDocs t ⟨bytes "u", false, []⟩ [] 0 10).map DocRecord.id = [bytes "d"] ∧
        (timelineDocs t ⟨bytes "u", false, []⟩).map (fun r => r.2.id) = [bytes "d"] := by
  have hcreate : createHumanDoc ⟨[], [], [], []⟩ serviceNote (bytes "n") 0 = .ok serviceNoteDb.db := by
    refine createHumanDoc_eq_ok.2 ⟨?_, rfl⟩
    show climb _ (serviceNote.toRecord 0) 1 [bytes "d"] [] >>= _ = _
    rw [climb_nil]
    rfl
  refine ⟨?_, by decide, by decide, _, Machine.Run.single ⟨trivial, Or.inl rfl⟩,
    by decide, by decide⟩
  have hconnector : AccessEvent.run ⟨⟨[], [], [], []⟩, [], []⟩ (.createConnector (bytes "c")) =
      some ⟨⟨[], [], [], []⟩, [bytes "c"], []⟩ := rfl
  rw [List.foldlM_cons, hconnector, Option.bind_eq_bind, Option.bind_some, List.foldlM_cons,
    AccessEvent.run, DocOp.run, hcreate]
  rfl

end WiseLabz.Store
