/-
**Which identity a cluster claims.**

The clusters claim one after the other, in an order that does not matter here.  An identity that a
cluster has claimed is not claimed again and not merged; one that was merged is not claimed; and a
new id is no stored one.  So different clusters have different identities, and every loser is merged
into an identity that some cluster has claimed.

Main definitions:

* `Identity.EntityMemberRecord.Proper` — an observation whose key tells its columns;
* `Identity.TablesOk` — what holds of the tables at all times;
* `Identity.Input` — the arguments of a reconciliation.

Main results:

* `Identity.identityMemberKey_inj` — keys tell the columns;
* `Identity.choice_spec` — **what is chosen and merged**.
-/

import WiseLabz.Identity.Store
import WiseLabz.Lib.Joined
import Mathlib.Data.List.Dedup

set_option relaxedAutoImplicit false
set_option autoImplicit false

namespace WiseLabz.Identity

open Lib

/-! ### Keys -/

/-- The connector and the kind have no NUL byte, so the key tells the columns. -/
def EntityMemberRecord.Proper (m : EntityMemberRecord) : Prop := 0 ∉ m.connectorID ∧ 0 ∉ m.kind

instance : DecidablePred EntityMemberRecord.Proper := fun m =>
  inferInstanceAs (Decidable (0 ∉ m.connectorID ∧ 0 ∉ m.kind))

def StoredIdentityMember.Proper (m : StoredIdentityMember) : Prop :=
  0 ∉ m.connectorID ∧ 0 ∉ m.kind

/-- **Keys tell the columns.** -/
theorem identityMemberKey_inj {c k r c' k' r' : Bytes} (hc : 0 ∉ c) (hk : 0 ∉ k) (hc' : 0 ∉ c')
    (hk' : 0 ∉ k') (h : identityMemberKey c k r = identityMemberKey c' k' r') :
    c = c' ∧ k = k' ∧ r = r' := by
  obtain ⟨rfl, hrest⟩ := append_cons_inj hc hc' h
  obtain ⟨rfl, rfl⟩ := append_cons_inj hk hk' hrest
  exact ⟨rfl, rfl, rfl⟩

theorem StoredIdentityMember.key_iff {m m' : StoredIdentityMember} (hm : m.Proper)
    (hm' : m'.Proper) : m.key = m'.key ↔ m.columns = m'.columns := by
  constructor
  · intro h
    obtain ⟨hc, hk, hr⟩ := identityMemberKey_inj hm.1 hm.2 hm'.1 hm'.2 h
    exact Prod.ext hc (Prod.ext hk hr)
  · intro h
    obtain ⟨hc, hkr⟩ := Prod.mk.inj h
    obtain ⟨hk, hr⟩ := Prod.mk.inj hkr
    rw [key, key, hc, hk, hr]

/-! ### The tables and the arguments -/

/-- **What holds of the tables at all times.** -/
structure TablesOk (db : Db) : Prop where
  ids : KeyNodup EntityIdentity.id db.entities
  /-- One row for each member. -/
  keys : KeyNodup StoredIdentityMember.key db.members
  proper : ∀ m ∈ db.members, m.Proper
  /-- A member belongs to an identity that is not merged, nor gone if the member is active. -/
  owner : ∀ m ∈ db.members, ∃ e, lookup EntityIdentity.id db.entities m.entityID = some e ∧
    e.mergedInto = none ∧ (m.goneAt = none → e.goneAt = none)
  /-- A redirect leads to an identity that is not merged. -/
  redirect : ∀ id e target, lookup EntityIdentity.id db.entities id = some e →
    e.mergedInto = some target →
      ∃ e', lookup EntityIdentity.id db.entities target = some e' ∧ e'.mergedInto = none

/-- The arguments of a reconciliation: clusters that partition observations with distinct keys, none
of a preserved connector, and as many ids that are not in use. -/
structure Input (db : Db) (clusters : List Cluster) (preserve newIds : List Bytes) : Prop where
  nonempty : ∀ c ∈ clusters, c ≠ []
  distinct : KeyNodup EntityMemberRecord.key clusters.flatten
  proper : ∀ m ∈ clusters.flatten, m.Proper
  preserved : ∀ m ∈ clusters.flatten, m.connectorID ∉ preserve
  length : newIds.length = clusters.length
  nodup : newIds.Nodup
  fresh : ∀ id ∈ newIds, lookup EntityIdentity.id db.entities id = none

/-! ### Sorting -/

/-- Sorting keeps the clusters, each with its members. -/
theorem sortIdentityClusters_perm (clusters : List Cluster) :
    (sortIdentityClusters clusters).Perm
      (clusters.map fun c => c.insertionSort fun a b => ¬ b.key < a.key) :=
  List.perm_insertionSort _ _

theorem sortIdentityClusters_flatten (clusters : List Cluster) :
    (sortIdentityClusters clusters).flatten.Perm clusters.flatten := by
  refine (sortIdentityClusters_perm clusters).flatten.trans ?_
  induction clusters with
  | nil => rfl
  | cons c clusters ih =>
      rw [List.map_cons, List.flatten_cons, List.flatten_cons]
      exact (List.perm_insertionSort _ c).append ih

/-- The sorted clusters are as good. -/
theorem Input.sorted {db : Db} {clusters : List Cluster} {preserve newIds : List Bytes}
    (h : Input db clusters preserve newIds) :
    Input db (sortIdentityClusters clusters) preserve newIds where
  nonempty c hc := by
    obtain ⟨c₀, hc₀, rfl⟩ := List.mem_map.1 ((sortIdentityClusters_perm clusters).mem_iff.1 hc)
    intro hnil
    have hlength := List.length_insertionSort (fun a b : EntityMemberRecord => ¬ b.key < a.key) c₀
    rw [hnil] at hlength
    exact h.nonempty c₀ hc₀ (List.length_eq_zero_iff.1 hlength.symm)
  distinct := (((sortIdentityClusters_flatten clusters).map _).nodup_iff).2 h.distinct
  proper m hm := h.proper m ((sortIdentityClusters_flatten clusters).mem_iff.1 hm)
  preserved m hm := h.preserved m ((sortIdentityClusters_flatten clusters).mem_iff.1 hm)
  length := by
    rw [h.length, (sortIdentityClusters_perm clusters).length_eq, List.length_map]
  nodup := h.nodup
  fresh := h.fresh

/-- Clusters are told apart by their first members. -/
theorem Input.clusterKeys {db : Db} {clusters : List Cluster} {preserve newIds : List Bytes}
    (h : Input db clusters preserve newIds) : KeyNodup clusterKey clusters := by
  have hnonempty := h.nonempty
  have hdistinct := h.distinct
  clear h
  induction clusters with
  | nil => exact List.nodup_nil
  | cons c clusters ih =>
      rw [KeyNodup, List.flatten_cons, List.map_append, List.nodup_append] at hdistinct
      rw [KeyNodup, List.map_cons, List.nodup_cons]
      refine ⟨?_, ih (fun d hd => hnonempty d (List.mem_cons_of_mem _ hd)) hdistinct.2.1⟩
      intro hmem
      obtain ⟨d, hd, hkey⟩ := List.mem_map.1 hmem
      have hfirst : ∀ e : Cluster, e ≠ [] → ∃ m ∈ e, m.key = clusterKey e := by
        intro e he
        cases e with
        | nil => exact absurd rfl he
        | cons m e => exact ⟨m, List.mem_cons_self .., rfl⟩
      obtain ⟨m, hm, hmkey⟩ := hfirst c (hnonempty c (List.mem_cons_self ..))
      obtain ⟨m', hm', hm'key⟩ := hfirst d (hnonempty d (List.mem_cons_of_mem _ hd))
      refine hdistinct.2.2 m.key (List.mem_map_of_mem hm) m'.key
        (List.mem_map_of_mem (List.mem_flatten.2 ⟨d, hd, hm'⟩)) ?_
      rw [hmkey, hm'key, hkey]

/-! ### Redirects -/

theorem entityOf_eq {entities : List EntityIdentity} {id : Bytes} {e : EntityIdentity}
    (h : lookup EntityIdentity.id entities id = some e) : entityOf entities id = e := by
  rw [entityOf, h]
  rfl

theorem resolveExistingIdentity_eq {entities : List EntityIdentity} {id : Bytes}
    (h : (entityOf entities id).mergedInto = none) : resolveExistingIdentity id entities = id := by
  rw [resolveExistingIdentity, resolveLoop]
  split
  · rfl
  · rw [h]

/-- The identity of a member is not a redirect. -/
theorem TablesOk.resolve {db : Db} (h : TablesOk db) {m : StoredIdentityMember}
    (hm : m ∈ db.members) : resolveExistingIdentity m.entityID db.entities = m.entityID := by
  obtain ⟨e, he, hmerged, -⟩ := h.owner m hm
  exact resolveExistingIdentity_eq (by rw [entityOf_eq he, hmerged])

/-- An identity that is stored and not merged. -/
def Existing (entities : List EntityIdentity) (id : Bytes) : Prop :=
  ∃ e, lookup EntityIdentity.id entities id = some e ∧ e.mergedInto = none

theorem TablesOk.candidates {db : Db} (h : TablesOk db) {cluster : Cluster} {id : Bytes}
    (hid : id ∈ candidates cluster db.members db.entities) : Existing db.entities id := by
  rw [Identity.candidates, List.mem_dedup, List.mem_filterMap] at hid
  obtain ⟨m, -, hid⟩ := hid
  obtain ⟨old, hold, rfl⟩ := Option.map_eq_some_iff.1 hid
  obtain ⟨hmem, -⟩ := lookup_eq_some hold
  rw [h.resolve hmem]
  obtain ⟨e, he, hmerged, -⟩ := h.owner old hmem
  exact ⟨e, he, hmerged⟩

/-! ### The choice -/

/-- What has been chosen after the clusters `done`, each with the id generated for it. -/
structure ChoiceOk (entities : List EntityIdentity) (done : List (Cluster × Bytes))
    (c : IdentityChoice) : Prop where
  chosen : ∀ p ∈ done, chosenID c.chosen p.1 = p.2 ∨ chosenID c.chosen p.1 ∈ c.used
  distinct : ∀ p ∈ done, ∀ q ∈ done, chosenID c.chosen p.1 = chosenID c.chosen q.1 → p = q
  used : ∀ id ∈ c.used, Existing entities id ∧ ∃ p ∈ done, chosenID c.chosen p.1 = id
  /-- A loser is a stored identity that is not in use, and its winner is. -/
  merged : ∀ x ∈ c.mergedInto, Existing entities x.1 ∧ x.1 ≠ [] ∧ x.1 ∉ c.used ∧ x.2 ∈ c.used
  nodup : KeyNodup Prod.fst c.mergedInto

theorem choiceOk_nil (entities : List EntityIdentity) : ChoiceOk entities [] ⟨[], [], []⟩ := by
  constructor <;> simp [KeyNodup]

theorem chosenID_put (chosen : List (Bytes × Bytes)) (key id : Bytes) (cluster : Cluster) :
    chosenID (put Prod.fst chosen (key, id)) cluster =
      if clusterKey cluster = key then id else chosenID chosen cluster := by
  rw [chosenID, lookup_put]
  split
  · rfl
  · rfl

theorem mergeTarget_eq_none {mergedInto : List (Bytes × Bytes)} {id : Bytes} :
    mergeTarget mergedInto id = none ↔ ∀ x ∈ mergedInto, x.1 ≠ id := by
  rw [mergeTarget, Option.map_eq_none_iff, lookup_eq_none]

/-- **A cluster claims an identity.** -/
theorem ChoiceOk.claim {db : Db} (hdb : TablesOk db) {done : List (Cluster × Bytes)}
    {c : IdentityChoice} (h : ChoiceOk db.entities done c) {p : Cluster × Bytes}
    (hkey : ∀ q ∈ done, clusterKey q.1 ≠ clusterKey p.1) (hid : ∀ q ∈ done, q.2 ≠ p.2)
    (hnew : lookup EntityIdentity.id db.entities p.2 = none)
    (hold : ∀ q ∈ done, lookup EntityIdentity.id db.entities q.2 = none) :
    ChoiceOk db.entities (done ++ [p]) (claimCluster db.members db.entities c p) := by
  have hclaimable : ∀ id ∈ claimable p.1 db.members db.entities c, Existing db.entities id ∧
      id ≠ [] ∧ id ∉ c.used ∧ ∀ x ∈ c.mergedInto, x.1 ≠ id := by
    intro id hid
    rw [claimable, List.mem_insertionSort, List.mem_filter] at hid
    obtain ⟨hcandidate, hfree⟩ := hid
    simp only [decide_eq_true_eq] at hfree
    exact ⟨hdb.candidates hcandidate, hfree.1, hfree.2.1, mergeTarget_eq_none.1 hfree.2.2⟩
  have hnodup : (claimable p.1 db.members db.entities c).Nodup := by
    refine (List.perm_insertionSort _ _).nodup_iff.2 (List.Nodup.filter _ ?_)
    exact List.nodup_dedup _
  have hnotnew : ∀ id, Existing db.entities id → lookup EntityIdentity.id db.entities id ≠ none := by
    rintro id ⟨e, he, -⟩ hnone
    rw [he] at hnone
    cases hnone
  -- the identities of the earlier clusters, once `p` has `id`
  have hearlier : ∀ id, ∀ q ∈ done,
      chosenID (put Prod.fst c.chosen (clusterKey p.1, id)) q.1 = chosenID c.chosen q.1 := by
    intro id q hq
    rw [chosenID_put, if_neg (hkey q hq)]
  have hown : ∀ id, chosenID (put Prod.fst c.chosen (clusterKey p.1, id)) p.1 = id := by
    intro id
    rw [chosenID_put, if_pos rfl]
  have hdistinct : ∀ id, (∀ q ∈ done, chosenID c.chosen q.1 ≠ id) →
      ∀ q ∈ done ++ [p], ∀ q' ∈ done ++ [p],
        chosenID (put Prod.fst c.chosen (clusterKey p.1, id)) q.1 =
          chosenID (put Prod.fst c.chosen (clusterKey p.1, id)) q'.1 → q = q' := by
    intro id hother q hq q' hq' heq
    rcases List.mem_append.1 hq with hq | hq <;> rcases List.mem_append.1 hq' with hq' | hq'
    · rw [hearlier id q hq, hearlier id q' hq'] at heq
      exact h.distinct q hq q' hq' heq
    · rw [List.mem_singleton.1 hq', hearlier id q hq, hown] at heq
      exact absurd heq (hother q hq)
    · rw [List.mem_singleton.1 hq, hearlier id q' hq', hown] at heq
      exact absurd heq.symm (hother q' hq')
    · rw [List.mem_singleton.1 hq, List.mem_singleton.1 hq']
  unfold claimCluster
  split
  · -- a new identity
    have hother : ∀ q ∈ done, chosenID c.chosen q.1 ≠ p.2 := by
      intro q hq heq
      rcases h.chosen q hq with hq₂ | hused
      · exact hid q hq (hq₂.symm.trans heq)
      · exact hnotnew _ (h.used _ hused).1 (heq ▸ hnew)
    refine ⟨?_, hdistinct p.2 hother, ?_, h.merged, h.nodup⟩
    · intro q hq
      rcases List.mem_append.1 hq with hq | hq
      · simp only [hearlier p.2 q hq]
        exact h.chosen q hq
      · rw [List.mem_singleton.1 hq]
        exact Or.inl (hown p.2)
    · intro id hused
      obtain ⟨hexisting, q, hq, hchosen⟩ := h.used id hused
      exact ⟨hexisting, q, List.mem_append_left _ hq, (hearlier p.2 q hq).trans hchosen⟩
  · next id losers hids =>
      rw [hids] at hclaimable hnodup
      obtain ⟨hexisting, -, hunused, hunmerged⟩ := hclaimable id (List.mem_cons_self ..)
      obtain ⟨hidLosers, hlosers⟩ := List.nodup_cons.1 hnodup
      have hother : ∀ q ∈ done, chosenID c.chosen q.1 ≠ id := by
        intro q hq heq
        rcases h.chosen q hq with hq₂ | hused
        · exact hnotnew _ hexisting (by rw [← heq, hq₂, hold q hq])
        · exact hunused (heq ▸ hused)
      have hpairs : KeyNodup Prod.fst (losers.map fun loser => (loser, id)) := by
        rw [KeyNodup, List.map_map]
        simpa [Function.comp_def] using hlosers
      refine ⟨?_, hdistinct id hother, ?_, ?_, h.nodup.putAll _⟩
      · intro q hq
        rcases List.mem_append.1 hq with hq | hq
        · simp only [hearlier id q hq]
          exact (h.chosen q hq).imp_right (List.mem_cons_of_mem _)
        · rw [List.mem_singleton.1 hq]
          exact Or.inr (by rw [hown]; exact List.mem_cons_self ..)
      · intro id' hused
        rcases List.mem_cons.1 hused with rfl | hused
        · exact ⟨hexisting, p, by simp, hown id'⟩
        · obtain ⟨hexisting', q, hq, hchosen⟩ := h.used id' hused
          exact ⟨hexisting', q, List.mem_append_left _ hq, (hearlier id q hq).trans hchosen⟩
      · intro x hx
        have hlookup := (h.nodup.putAll (losers.map fun loser => (loser, id))).lookup_of_mem hx
        rw [lookup_putAll hpairs, Option.or_eq_some_iff] at hlookup
        rcases hlookup with hx | ⟨-, hx⟩
        · obtain ⟨loser, hloser, rfl⟩ := List.mem_map.1 (lookup_eq_some hx).1
          obtain ⟨hexisting', hnonempty, hunused', -⟩ :=
            hclaimable loser (List.mem_cons_of_mem _ hloser)
          refine ⟨hexisting', hnonempty, ?_, List.mem_cons_self ..⟩
          intro hmem
          rcases List.mem_cons.1 hmem with heq | hmem
          · exact hidLosers ((show loser = id from heq) ▸ hloser)
          · exact hunused' hmem
        · obtain ⟨hexisting', hnonempty, hunused', hwinner⟩ := h.merged x (lookup_eq_some hx).1
          refine ⟨hexisting', hnonempty, ?_, List.mem_cons_of_mem _ hwinner⟩
          intro hmem
          rcases List.mem_cons.1 hmem with heq | hmem
          · exact hunmerged x (lookup_eq_some hx).1 heq
          · exact hunused' hmem

/-- All clusters claim their identities. -/
theorem ChoiceOk.run {db : Db} (hdb : TablesOk db) {done todo : List (Cluster × Bytes)}
    {c : IdentityChoice} (h : ChoiceOk db.entities done c)
    (hkeys : KeyNodup (fun p => clusterKey p.1) (done ++ todo))
    (hids : KeyNodup Prod.snd (done ++ todo))
    (hfresh : ∀ p ∈ done ++ todo, lookup EntityIdentity.id db.entities p.2 = none) :
    ChoiceOk db.entities (done ++ todo)
      (todo.foldl (claimCluster db.members db.entities) c) := by
  induction todo generalizing done c with
  | nil => simpa using h
  | cons p todo ih =>
      have hsplit : done ++ p :: todo = done ++ [p] ++ todo := by simp
      have hbefore : ∀ {κ : Type} (key : Cluster × Bytes → κ), KeyNodup key (done ++ p :: todo) →
          ∀ q ∈ done, key q ≠ key p := by
        intro κ key hnodup q hq
        rw [KeyNodup, List.map_append, List.nodup_append] at hnodup
        exact hnodup.2.2 _ (List.mem_map_of_mem hq) _ (by simp)
      rw [List.foldl_cons, hsplit]
      refine ih (h.claim hdb (hbefore _ hkeys) (hbefore _ hids) (hfresh p (by simp)) ?_)
        (hsplit ▸ hkeys) (hsplit ▸ hids) (hsplit ▸ hfresh)
      exact fun q hq => hfresh q (List.mem_append_left _ hq)

/-- **What is chosen and merged.** -/
structure ChoiceSpec (entities : List EntityIdentity) (clusters : List Cluster)
    (c : IdentityChoice) : Prop where
  /-- Different clusters have different identities. -/
  distinct : ∀ d ∈ clusters, ∀ d' ∈ clusters,
    chosenID c.chosen d = chosenID c.chosen d' → clusterKey d = clusterKey d'
  /-- The identity of a cluster is new or stored, and not merged. -/
  chosen : ∀ d ∈ clusters, (lookup EntityIdentity.id entities (chosenID c.chosen d) = none ∨
    Existing entities (chosenID c.chosen d)) ∧ mergeTarget c.mergedInto (chosenID c.chosen d) = none
  /-- A loser is a stored identity; its winner is one too, and the identity of a cluster. -/
  merged : ∀ loser winner, mergeTarget c.mergedInto loser = some winner →
    Existing entities loser ∧ loser ≠ [] ∧ Existing entities winner ∧
      ∃ d ∈ clusters, chosenID c.chosen d = winner
  nodup : KeyNodup Prod.fst c.mergedInto

/-- The clusters claim one after the other, in some order. -/
theorem chooseIdentityIDs_order (clusters : List Cluster) (newIds : List Bytes)
    (members : List StoredIdentityMember) (entities : List EntityIdentity) :
    ∃ order : List Cluster, order.Perm clusters ∧
      chooseIdentityIDs clusters newIds members entities =
        (order.zip newIds).foldl (claimCluster members entities) ⟨[], [], []⟩ := by
  let claims := (clusters.map fun d => claimOrder d members entities).insertionSort
    fun x y => ¬ ClaimOrder.less entities y x
  refine ⟨claims.map (·.cluster), ?_, rfl⟩
  have hsorted := (List.perm_insertionSort (fun x y => ¬ ClaimOrder.less entities y x)
    (clusters.map fun d => claimOrder d members entities)).map (·.cluster)
  rw [List.map_map] at hsorted
  have hcluster : clusters.map ((·.cluster) ∘ fun d => claimOrder d members entities) =
      clusters := by
    simp [Function.comp_def, claimOrder]
  rwa [hcluster] at hsorted

/-- The clusters, in any order, with the ids generated for them. -/
theorem Input.zip {db : Db} {clusters order : List Cluster} {preserve newIds : List Bytes}
    (h : Input db clusters preserve newIds) (hperm : order.Perm clusters) :
    (order.zip newIds).map Prod.fst = order ∧ (order.zip newIds).map Prod.snd = newIds ∧
      KeyNodup (fun p => clusterKey p.1) (order.zip newIds) := by
  have hlength : order.length = newIds.length := by rw [hperm.length_eq, h.length]
  have hfst : (order.zip newIds).map Prod.fst = order := List.map_fst_zip hlength.le
  refine ⟨hfst, List.map_snd_zip hlength.ge, ?_⟩
  have hnodup := (hperm.map clusterKey).nodup_iff.2 h.clusterKeys
  rw [← hfst, List.map_map] at hnodup
  exact hnodup

/-- What has been chosen when all clusters have claimed. -/
theorem choice_run {db : Db} (hdb : TablesOk db) {clusters : List Cluster}
    {preserve newIds : List Bytes} (h : Input db clusters preserve newIds) :
    ∃ order : List Cluster, order.Perm clusters ∧
      ChoiceOk db.entities (order.zip newIds)
        (chooseIdentityIDs clusters newIds db.members db.entities) := by
  obtain ⟨order, hperm, heq⟩ := chooseIdentityIDs_order clusters newIds db.members
    db.entities
  obtain ⟨-, hsnd, hkeys⟩ := h.zip hperm
  have hids : KeyNodup Prod.snd (order.zip newIds) := by
    rw [KeyNodup, hsnd]
    exact h.nodup
  have hfresh : ∀ p ∈ order.zip newIds, lookup EntityIdentity.id db.entities p.2 = none :=
    fun p hp => h.fresh p.2 (hsnd ▸ List.mem_map_of_mem hp)
  refine ⟨order, hperm, ?_⟩
  rw [heq]
  exact (choiceOk_nil db.entities).run hdb hkeys hids hfresh

/-- The identity of a cluster is a generated or a stored one. -/
theorem chosenID_new_or_existing {db : Db} (hdb : TablesOk db) {clusters : List Cluster}
    {preserve newIds : List Bytes} (h : Input db clusters preserve newIds) {d : Cluster}
    (hd : d ∈ clusters) :
    chosenID (chooseIdentityIDs clusters newIds db.members db.entities).chosen d ∈ newIds ∨
      Existing db.entities
        (chosenID (chooseIdentityIDs clusters newIds db.members db.entities).chosen d) := by
  obtain ⟨order, hperm, hrun⟩ := choice_run hdb h
  obtain ⟨hfst, hsnd, -⟩ := h.zip hperm
  rw [← hperm.mem_iff, ← hfst] at hd
  obtain ⟨p, hp, rfl⟩ := List.mem_map.1 hd
  rcases hrun.chosen p hp with hnew | hused
  · rw [hnew]
    exact Or.inl (hsnd ▸ List.mem_map_of_mem hp)
  · exact Or.inr (hrun.used _ hused).1

theorem choice_spec {db : Db} (hdb : TablesOk db) {clusters : List Cluster}
    {preserve newIds : List Bytes} (h : Input db clusters preserve newIds) :
    ChoiceSpec db.entities clusters (chooseIdentityIDs clusters newIds db.members db.entities) := by
  obtain ⟨order, hperm, hrun⟩ := choice_run hdb h
  obtain ⟨hfst, hsnd, -⟩ := h.zip hperm
  have hfresh : ∀ p ∈ order.zip newIds, lookup EntityIdentity.id db.entities p.2 = none :=
    fun p hp => h.fresh p.2 (hsnd ▸ List.mem_map_of_mem hp)
  have hpair : ∀ d ∈ clusters, ∃ p ∈ order.zip newIds, p.1 = d := by
    intro d hd
    refine List.mem_map.1 ?_
    rw [hfst]
    exact hperm.mem_iff.2 hd
  have hcluster : ∀ p ∈ order.zip newIds, p.1 ∈ clusters :=
    fun p hp => hperm.mem_iff.1 (hfst ▸ List.mem_map_of_mem hp)
  refine ⟨?_, ?_, ?_, hrun.nodup⟩
  · intro d hd d' hd' heq
    obtain ⟨p, hp, rfl⟩ := hpair d hd
    obtain ⟨p', hp', rfl⟩ := hpair d' hd'
    rw [hrun.distinct p hp p' hp' heq]
  · intro d hd
    obtain ⟨p, hp, rfl⟩ := hpair d hd
    rcases hrun.chosen p hp with hnew | hused
    · rw [hnew]
      refine ⟨Or.inl (hfresh p hp), mergeTarget_eq_none.2 fun x hx heq => ?_⟩
      obtain ⟨e, he, -⟩ := (hrun.merged x hx).1
      rw [heq, hfresh p hp] at he
      cases he
    · refine ⟨Or.inr (hrun.used _ hused).1, mergeTarget_eq_none.2 fun x hx heq => ?_⟩
      exact (hrun.merged x hx).2.2.1 (heq ▸ hused)
  · intro loser winner hmerge
    obtain ⟨x, hx, rfl⟩ := Option.map_eq_some_iff.1 hmerge
    obtain ⟨hmem, rfl⟩ := lookup_eq_some hx
    obtain ⟨hloser, hnonempty, -, hwinner⟩ := hrun.merged x hmem
    obtain ⟨hexisting, p, hp, hchosen⟩ := hrun.used _ hwinner
    exact ⟨hloser, hnonempty, hexisting, p.1, hcluster p hp, hchosen⟩

end WiseLabz.Identity
