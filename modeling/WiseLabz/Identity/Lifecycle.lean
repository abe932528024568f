/-
**The life of identities.**

Reconciliations and purges, in any order.  Each keeps what holds of the tables, and right after a
reconciliation the members of each cluster are active rows of one identity of their own.  That an
identity is gone exactly without active members also survives a purge, as long as the clock texts
of the reconciliations never decrease: a winner that a purge deletes then has been gone for less
time than any of its losers has been merged, so its losers are deleted with it.

Main definitions:

* `Identity.World`, `Identity.Event`, `Identity.lifecycle` — runs of reconciliations and purges;
* `Identity.Timely` — clock texts do not decrease.

Main results:

* `Identity.TablesOk.reconcile`, `Identity.TablesOk.purge` — both keep what holds of the tables;
* `Identity.clustered_reconcile`, `Identity.goneIff_reconcile` — what a reconciliation establishes;
* `Identity.identity_lifecycle` — **what holds in every run**.
-/

import WiseLabz.Identity.Reconcile
import WiseLabz.Lib.Machine

set_option relaxedAutoImplicit false
set_option autoImplicit false

namespace WiseLabz.Identity

open Lib

/-! ### What a reconciliation leaves -/

section Reconcile

variable {db : Db} {clusters : List Cluster} {choice : IdentityChoice} {preserve newIds : List Bytes}
  {now : Bytes}

/-- The tables after a reconciliation. -/
def tablesAfter (db : Db) (clusters : List Cluster) (choice : IdentityChoice)
    (preserve : List Bytes) (now : Bytes) : Db where
  entities := entitiesAfter db clusters choice preserve now
  members := (membersSettled db clusters choice preserve now).map (moved choice.mergedInto)

/-- **What a reconciliation leaves.** -/
theorem reconcileEntityIdentities_eq (hdb : TablesOk db) (h : Input db clusters preserve newIds) :
    reconcileEntityIdentities db clusters preserve newIds now =
      tablesAfter db (sortIdentityClusters clusters)
        (chooseIdentityIDs (sortIdentityClusters clusters) newIds db.members db.entities) preserve
        now := by
  let sorted := sortIdentityClusters clusters
  let choice := chooseIdentityIDs sorted newIds db.members db.entities
  have hsorted : Input db sorted preserve newIds := h.sorted
  have hspec : ChoiceSpec db.entities sorted choice := choice_spec hdb hsorted
  have hdesired : putAll StoredIdentityMember.key []
      (sorted.flatMap fun c => desiredMembers (chosenID choice.chosen c) c) =
        desired sorted choice.chosen := putAll_nil hsorted.desired_nodup
  have hcolumns : KeyNodup StoredIdentityMember.columns
      (membersSettled db sorted choice preserve now) := by
    refine List.Nodup.map_on ?_ (List.Nodup.of_map _ (membersSettled_nodup hdb hsorted))
    intro m hm m' hm' heq
    exact (membersSettled_nodup hdb hsorted).eq_of_key hm hm'
      ((StoredIdentityMember.key_iff (membersSettled_proper hdb hsorted hm)
        (membersSettled_proper hdb hsorted hm')).2 heq)
  have hmembers : moveMergedIdentityMembers choice.mergedInto
      (upsertIdentityMembers
        (markIdentityMembersGone db.members (goneMembers db sorted choice preserve) now) db.members
        (desired sorted choice.chosen)) =
        (membersSettled db sorted choice preserve now).map (moved choice.mergedInto) := by
    rw [upsertIdentityMembers_eq hdb hsorted]
    exact moveMergedIdentityMembers_eq hcolumns hspec.nodup hspec.winners
  rw [tablesAfter, ← hmembers, goneMembers, ← hdesired, reconcileEntityIdentities,
    putAll_nil hdb.ids, putAll_nil hdb.keys]
  rfl

variable (preserve now) in
/-- The members of the clusters are stored as they should be. -/
theorem desired_mem_after (hdb : TablesOk db) (h : Input db clusters preserve newIds)
    (hspec : ChoiceSpec db.entities clusters choice) {m : StoredIdentityMember}
    (hm : m ∈ desired clusters choice.chosen) :
    m ∈ (tablesAfter db clusters choice preserve now).members := by
  -- the identity of a cluster is no loser
  have hkept : moved choice.mergedInto m = m := by
    obtain ⟨d, hd, o, ho, rfl⟩ := mem_desired.1 hm
    rw [moved, (hspec.chosen d hd).2, Option.getD_none]
  have hactive : m.goneAt = none := by
    obtain ⟨d, hd, o, ho, rfl⟩ := mem_desired.1 hm
    rfl
  have hrow : m ∈ membersSettled db clusters choice preserve now := by
    cases hold : lookup StoredIdentityMember.key db.members m.key with
    | none => exact List.mem_append_right _ (List.mem_filter.2 ⟨hm, by rw [hold]; rfl⟩)
    | some old =>
        obtain ⟨hmem, hkey⟩ := lookup_eq_some hold
        have hcolumns : old.columns = m.columns :=
          (StoredIdentityMember.key_iff (hdb.proper old hmem) (h.desired_proper hm).1).1 hkey
        obtain ⟨hconnector, hrest⟩ := Prod.mk.inj hcolumns
        obtain ⟨hkind, href⟩ := Prod.mk.inj hrest
        refine List.mem_append_left _ (List.mem_map.2 ⟨old, hmem, ?_⟩)
        rw [settledMember, hkey, h.desired_nodup.lookup_of_mem hm, StoredIdentityMember.mk.injEq]
        exact ⟨rfl, hconnector, hkind, href, rfl, hactive.symm⟩
  rw [← hkept]
  exact List.mem_map_of_mem hrow

variable (preserve now) in
/-- The member of a cluster is an active row of the identity of the cluster. -/
theorem desired_after (hdb : TablesOk db) (h : Input db clusters preserve newIds)
    (hspec : ChoiceSpec db.entities clusters choice) {d : Cluster} (hd : d ∈ clusters)
    {o : EntityMemberRecord} (ho : o ∈ d) :
    ∃ row ∈ (tablesAfter db clusters choice preserve now).members, row.columns = o.columns ∧
      row.entityID = chosenID choice.chosen d ∧ row.goneAt = none :=
  ⟨_, desired_mem_after preserve now hdb h hspec (mem_desired.2 ⟨d, hd, o, ho, rfl⟩), rfl, rfl, rfl⟩

/-- **Where a row comes from**: it belongs to the identity of a cluster, or it was there and follows
its identity. -/
theorem member_after {row : StoredIdentityMember}
    (hrow : row ∈ (tablesAfter db clusters choice preserve now).members)
    (hspec : ChoiceSpec db.entities clusters choice) :
    (∃ d ∈ clusters, row.entityID = chosenID choice.chosen d) ∨
      ∃ old ∈ db.members,
        row.entityID = (mergeTarget choice.mergedInto old.entityID).getD old.entityID ∧
        (row.goneAt = none → old.goneAt = none ∧ old.connectorID ∈ preserve) := by
  obtain ⟨r, hr, rfl⟩ := List.mem_map.1 hrow
  have hchosen : ∀ m ∈ desired clusters choice.chosen, ∀ r : StoredIdentityMember,
      r.entityID = m.entityID →
        ∃ d ∈ clusters, (moved choice.mergedInto r).entityID = chosenID choice.chosen d := by
    intro m hm r hr
    obtain ⟨d, hd, o, -, rfl⟩ := mem_desired.1 hm
    refine ⟨d, hd, ?_⟩
    rw [moved, hr, (hspec.chosen d hd).2]
    rfl
  rcases List.mem_append.1 hr with hr | hr
  · obtain ⟨old, hold, rfl⟩ := List.mem_map.1 hr
    rw [settledMember]
    cases hm : lookup StoredIdentityMember.key (desired clusters choice.chosen) old.key with
    | some m => exact Or.inl (hchosen m (lookup_eq_some hm).1 _ rfl)
    | none =>
        refine Or.inr ⟨old, hold, ?_⟩
        by_cases hkept : old.connectorID ∈ preserve ∨ old.goneAt ≠ none
        · simp only [if_pos hkept]
          exact ⟨rfl, fun hactive => ⟨hactive, hkept.resolve_right (not_not_intro hactive)⟩⟩
        · simp only [if_neg hkept]
          exact ⟨rfl, fun hactive => absurd hactive (Option.some_ne_none now)⟩
  · exact Or.inl (hchosen r (List.mem_of_mem_filter hr) r rfl)

/-- An active member of a preserved connector stays active. -/
theorem preserved_after (hdb : TablesOk db) (h : Input db clusters preserve newIds)
    {old : StoredIdentityMember} (hold : old ∈ db.members) (hpreserve : old.connectorID ∈ preserve) :
    moved choice.mergedInto old ∈ (tablesAfter db clusters choice preserve now).members := by
  have hunobserved : lookup StoredIdentityMember.key (desired clusters choice.chosen) old.key =
      none := by
    rw [lookup_eq_none]
    intro m hm hkey
    obtain ⟨hproper, hother⟩ := h.desired_proper hm
    have hcolumns := (StoredIdentityMember.key_iff hproper (hdb.proper old hold)).1 hkey
    exact hother ((Prod.mk.inj hcolumns).1 ▸ hpreserve)
  have hsettled : settledMember (desired clusters choice.chosen) preserve now old = old := by
    rw [settledMember, hunobserved]
    exact if_pos (Or.inl hpreserve)
  have hrow : settledMember (desired clusters choice.chosen) preserve now old ∈
      membersSettled db clusters choice preserve now :=
    List.mem_append_left _ (List.mem_map_of_mem hold)
  rw [hsettled] at hrow
  exact List.mem_map_of_mem hrow

variable (preserve now) in
/-- An identity that was not merged, or its winner if it is merged now, is not gone, or it is
settled. -/
theorem entity_after (hdb : TablesOk db) (hkeys : KeyNodup clusterKey clusters)
    (hspec : ChoiceSpec db.entities clusters choice) {id : Bytes} {e : EntityIdentity}
    (he : lookup EntityIdentity.id db.entities id = some e) (hmerged : e.mergedInto = none) :
    ∃ e', lookup EntityIdentity.id (tablesAfter db clusters choice preserve now).entities
        ((mergeTarget choice.mergedInto id).getD id) = some e' ∧ e'.mergedInto = none ∧
      (e'.goneAt = none ∨ (∀ d ∈ clusters, chosenID choice.chosen d ≠ id) ∧
        e' = settled db.entities (activeIdentities db clusters choice preserve now)
          choice.mergedInto now e) := by
  by_cases hcluster : ∃ d ∈ clusters, chosenID choice.chosen d =
      (mergeTarget choice.mergedInto id).getD id
  · obtain ⟨d, hd, hchosen⟩ := hcluster
    obtain ⟨e', he', hmerged', hgone'⟩ :=
      lookup_chosen preserve now hdb hkeys hspec hd
    exact ⟨e', hchosen ▸ he', hmerged', Or.inl hgone'⟩
  · have hunmerged : mergeTarget choice.mergedInto id = none := by
      cases hmerge : mergeTarget choice.mergedInto id with
      | none => rfl
      | some winner =>
          obtain ⟨-, -, -, d, hd, hchosen⟩ := hspec.merged id winner hmerge
          exact absurd ⟨d, hd, by rw [hchosen, hmerge]; rfl⟩ hcluster
    rw [hunmerged, Option.getD_none] at hcluster ⊢
    have hother : ∀ d ∈ clusters, chosenID choice.chosen d ≠ id :=
      fun d hd heq => hcluster ⟨d, hd, heq⟩
    rw [tablesAfter, lookup_other hdb hkeys hspec hunmerged hother, he]
    refine ⟨_, rfl, ?_, Or.inr ⟨hother, rfl⟩⟩
    rw [settled]
    split
    · exact hmerged
    · rw [redirected, hmerged]
      rfl

/-- An identity that is not gone, and that something observes, is not gone once it is settled. -/
theorem settled_goneAt {active : List Bytes} {e : EntityIdentity} (hactive : e.id ∈ active)
    (hgone : e.goneAt = none) :
    (settled db.entities active choice.mergedInto now e).goneAt = none := by
  rw [settled, if_neg (by simp [isUnobserved, hactive])]
  exact hgone

/-- The identity of an active member of a preserved connector is observed. -/
theorem preserved_active (hdb : TablesOk db) {old : StoredIdentityMember} (hold : old ∈ db.members)
    (hgone : old.goneAt = none) (hpreserve : old.connectorID ∈ preserve) :
    old.entityID ∈ activeIdentities db clusters choice preserve now := by
  refine List.mem_append_left _ (List.mem_map.2 ⟨old, ?_, hdb.resolve hold⟩)
  exact List.mem_filter.2 ⟨hold, decide_eq_true ⟨hpreserve, hgone⟩⟩

/-- **Where a redirect comes from**: a merge into the identity of a cluster, or an older redirect
that leads to its final winner. -/
theorem merged_after (hdb : TablesOk db) (hkeys : KeyNodup clusterKey clusters)
    (hspec : ChoiceSpec db.entities clusters choice) {id target : Bytes} {e' : EntityIdentity}
    (he' : lookup EntityIdentity.id (tablesAfter db clusters choice preserve now).entities id =
      some e') (htarget : e'.mergedInto = some target) :
    ((∃ d ∈ clusters, chosenID choice.chosen d = target) ∧ e'.mergedAt = some now) ∨
      ∃ e t, lookup EntityIdentity.id db.entities id = some e ∧ e.mergedInto = some t ∧
        target = (mergeTarget choice.mergedInto t).getD t ∧ e'.mergedAt = e.mergedAt := by
  cases hmerge : mergeTarget choice.mergedInto id with
  | some winner =>
      rw [tablesAfter, lookup_loser hdb hkeys hspec hmerge] at he'
      obtain rfl := Option.some.inj he'
      obtain rfl := Option.some.inj htarget
      obtain ⟨-, -, -, hcluster⟩ := hspec.merged id winner hmerge
      exact Or.inl ⟨hcluster, rfl⟩
  | none =>
      by_cases hcluster : ∃ d ∈ clusters, chosenID choice.chosen d = id
      · obtain ⟨d, hd, rfl⟩ := hcluster
        obtain ⟨e, he, hmerged, -⟩ :=
          lookup_chosen preserve now hdb hkeys hspec hd
        rw [tablesAfter, he] at he'
        obtain rfl := Option.some.inj he'
        rw [hmerged] at htarget
        cases htarget
      · rw [tablesAfter, lookup_other hdb hkeys hspec hmerge
          fun d hd heq => hcluster ⟨d, hd, heq⟩] at he'
        obtain ⟨e, he, rfl⟩ := Option.map_eq_some_iff.1 he'
        rw [settled] at htarget ⊢
        split at htarget
        · next hunobserved =>
            -- what is gone now was not merged
            simp only [isUnobserved, decide_eq_true_eq] at hunobserved
            rw [hunobserved.1] at htarget
            cases htarget
        · next hobserved =>
            obtain ⟨t, ht, rfl⟩ := Option.map_eq_some_iff.1 htarget
            rw [if_neg hobserved]
            refine Or.inr ⟨e, t, he, ht, ?_, rfl⟩
            exact resolveFinalIdentity_eq hspec (hdb.redirect id e t he ht)

/-- **A reconciliation keeps what holds of the tables.** -/
theorem TablesOk.after (hdb : TablesOk db) (h : Input db clusters preserve newIds)
    (hspec : ChoiceSpec db.entities clusters choice) :
    TablesOk (tablesAfter db clusters choice preserve now) where
  ids := hdb.ids.putAll _
  keys := by
    have hmoved : ∀ m : StoredIdentityMember, (moved choice.mergedInto m).key = m.key :=
      fun _ => rfl
    exact (membersSettled_nodup hdb h).map hmoved
  proper := by
    intro row hrow
    obtain ⟨r, hr, rfl⟩ := List.mem_map.1 hrow
    exact show r.Proper from membersSettled_proper hdb h hr
  owner := by
    intro row hrow
    rcases member_after hrow hspec with ⟨d, hd, hid⟩ | ⟨old, hold, hid, hactive⟩
    · obtain ⟨e, he, hmerged, hgone⟩ :=
        lookup_chosen preserve now hdb h.clusterKeys hspec hd
      exact ⟨e, hid ▸ he, hmerged, fun _ => hgone⟩
    · obtain ⟨e, he, hmerged, hgone⟩ := hdb.owner old hold
      obtain ⟨e', he', hmerged', hstate⟩ :=
        entity_after preserve now hdb h.clusterKeys hspec he hmerged
      refine ⟨e', hid ▸ he', hmerged', fun hrowActive => ?_⟩
      obtain ⟨holdActive, hpreserve⟩ := hactive hrowActive
      rcases hstate with hnotGone | ⟨-, rfl⟩
      · exact hnotGone
      · refine settled_goneAt ?_ (hgone holdActive)
        rw [(lookup_eq_some he).2]
        exact preserved_active hdb hold holdActive hpreserve
  redirect := by
    intro id e' target he' htarget
    rcases merged_after hdb h.clusterKeys hspec he' htarget with
      ⟨⟨d, hd, rfl⟩, -⟩ | ⟨e, t, he, ht, rfl, -⟩
    · obtain ⟨e, he, hmerged, -⟩ :=
        lookup_chosen preserve now hdb h.clusterKeys hspec hd
      exact ⟨e, he, hmerged⟩
    · obtain ⟨winner, hwinner, hmerged⟩ := hdb.redirect id e t he ht
      obtain ⟨e'', he'', hmerged'', -⟩ :=
        entity_after preserve now hdb h.clusterKeys hspec hwinner hmerged
      exact ⟨e'', he'', hmerged''⟩

/-- **After a reconciliation an identity that is not merged is gone exactly without active
members.** -/
theorem goneIff_after (hdb : TablesOk db) (h : Input db clusters preserve newIds)
    (hspec : ChoiceSpec db.entities clusters choice) :
    GoneIff (tablesAfter db clusters choice preserve now) := by
  have hafter : TablesOk (tablesAfter db clusters choice preserve now) := hdb.after h hspec
  intro e' hmem hmerged'
  have he' := hafter.ids.lookup_of_mem hmem
  constructor
  · rintro hgone ⟨m, hm, hid, hactive⟩
    obtain ⟨e, he, -, hnotGone⟩ := hafter.owner m hm
    rw [hid, he'] at he
    obtain rfl := Option.some.inj he
    exact hgone (hnotGone hactive)
  · intro hnone hgone
    apply hnone
    by_cases hcluster : ∃ d ∈ clusters, chosenID choice.chosen d = e'.id
    · obtain ⟨d, hd, hchosen⟩ := hcluster
      obtain ⟨o, d', rfl⟩ := List.exists_cons_of_ne_nil (h.nonempty d hd)
      obtain ⟨row, hrow, -, hid, hactive⟩ := desired_after preserve now hdb h
        hspec hd (List.mem_cons_self ..)
      exact ⟨row, hrow, hid.trans hchosen, hactive⟩
    · have hother : ∀ d ∈ clusters, chosenID choice.chosen d ≠ e'.id :=
        fun d hd heq => hcluster ⟨d, hd, heq⟩
      cases hmerge : mergeTarget choice.mergedInto e'.id with
      | some winner =>
          rw [tablesAfter, lookup_loser hdb h.clusterKeys hspec hmerge] at he'
          rw [← Option.some.inj he'] at hmerged'
          cases hmerged'
      | none =>
          rw [tablesAfter, lookup_other hdb h.clusterKeys hspec hmerge hother] at he'
          obtain ⟨e, he, rfl⟩ := Option.map_eq_some_iff.1 he'
          rw [settled] at hmerged' hgone hmerge he hother ⊢
          split at hgone
          · cases hgone
          · next hobserved =>
              rw [if_neg hobserved] at hmerged' hmerge he hother ⊢
              have hmerged : e.mergedInto = none := Option.map_eq_none_iff.1 hmerged'
              have hactive : e.id ∈ activeIdentities db clusters choice preserve now := by
                by_contra hinactive
                exact hobserved (decide_eq_true ⟨hmerged, hinactive, hmerge, hgone⟩)
              rcases List.mem_append.1 hactive with hpreserved | hchosen
              · obtain ⟨old, hold, hid⟩ := List.mem_map.1 hpreserved
                obtain ⟨hmem, hkept⟩ := List.mem_filter.1 hold
                obtain ⟨hpreserve, holdActive⟩ := of_decide_eq_true hkept
                rw [hdb.resolve hmem] at hid
                refine ⟨_, preserved_after hdb h hmem hpreserve, ?_, holdActive⟩
                rw [moved, hid, show mergeTarget choice.mergedInto e.id = none from hmerge]
                rfl
              · obtain ⟨d, hd, hid⟩ := List.mem_map.1 hchosen
                exact absurd hid (hother d hd)

theorem TablesOk.reconcile (hdb : TablesOk db) (h : Input db clusters preserve newIds) :
    TablesOk (reconcileEntityIdentities db clusters preserve newIds now) := by
  rw [reconcileEntityIdentities_eq hdb h]
  exact hdb.after h.sorted (choice_spec hdb h.sorted)

theorem goneIff_reconcile (hdb : TablesOk db) (h : Input db clusters preserve newIds) :
    GoneIff (reconcileEntityIdentities db clusters preserve newIds now) := by
  rw [reconcileEntityIdentities_eq hdb h]
  exact goneIff_after hdb h.sorted (choice_spec hdb h.sorted)

/-- **After a reconciliation the members of each cluster are active rows of an identity of their
own.** -/
theorem clustered_reconcile (hdb : TablesOk db) (h : Input db clusters preserve newIds) :
    Clustered (reconcileEntityIdentities db clusters preserve newIds now) clusters := by
  have hsorted := h.sorted
  have hspec := choice_spec hdb hsorted
  have hperm := sortIdentityClusters_perm clusters
  let choice := chooseIdentityIDs (sortIdentityClusters clusters) newIds db.members db.entities
  rw [reconcileEntityIdentities_eq hdb h]
  -- a cluster has the identity that was chosen for it, once sorted
  refine ⟨fun c => chosenID choice.chosen (c.insertionSort fun a b => ¬ b.key < a.key), ?_, ?_⟩
  · have hdistinct : KeyNodup (chosenID choice.chosen) (sortIdentityClusters clusters) := by
      refine List.Nodup.map_on ?_ (List.Nodup.of_map _ hsorted.clusterKeys)
      intro d hd d' hd' heq
      exact hsorted.clusterKeys.eq_of_key hd hd' (hspec.distinct d hd d' hd' heq)
    have hnodup := ((hperm.map _).nodup_iff).1 hdistinct
    rwa [List.map_map] at hnodup
  · intro c hc o ho
    exact desired_after preserve now hdb hsorted hspec
      (hperm.mem_iff.2 (List.mem_map_of_mem hc)) ((List.mem_insertionSort _).2 ho)

end Reconcile

/-! ### What a purge leaves -/

section Purge

variable {db : Db} {cutoff : Bytes}

/-- An identity is deleted. -/
def isExpired (db : Db) (cutoff id : Bytes) : Bool :=
  db.entities.any fun e => e.id = id && e.expired cutoff

theorem TablesOk.isExpired_eq (hdb : TablesOk db) {id : Bytes} {e : EntityIdentity}
    (he : lookup EntityIdentity.id db.entities id = some e) :
    isExpired db cutoff id = e.expired cutoff := by
  obtain ⟨hmem, rfl⟩ := lookup_eq_some he
  rw [Bool.eq_iff_iff, isExpired, List.any_eq_true]
  constructor
  · rintro ⟨f, hf, hexpired⟩
    rw [Bool.and_eq_true, decide_eq_true_eq] at hexpired
    rw [← hdb.ids.eq_of_key hf hmem hexpired.1]
    exact hexpired.2
  · exact fun hexpired => ⟨e, hmem, by simp [hexpired]⟩

/-- The row of an identity that is kept: a redirect to a deleted one is NULL. -/
def purged (db : Db) (cutoff : Bytes) (e : EntityIdentity) : EntityIdentity :=
  { e with mergedInto := e.mergedInto.filter fun target => ¬ isExpired db cutoff target }

/-- **What is stored under an id after a purge.** -/
theorem TablesOk.lookup_purge (hdb : TablesOk db) (id : Bytes) :
    lookup EntityIdentity.id (deleteExpiredEntityIdentities db cutoff).entities id =
      ((lookup EntityIdentity.id db.entities id).filter fun e => ¬ e.expired cutoff).map
        (purged db cutoff) := by
  have hkey : ∀ e, (purged db cutoff e).id = e.id := fun _ => rfl
  rw [← hdb.ids.lookup_filter, ← lookup_map hkey]
  rfl

/-- **A purge keeps what holds of the tables.** -/
theorem TablesOk.purge (hdb : TablesOk db) :
    TablesOk (deleteExpiredEntityIdentities db cutoff) where
  ids := by
    have hkey : ∀ e, (purged db cutoff e).id = e.id := fun _ => rfl
    exact (hdb.ids.filter _).map hkey
  keys := hdb.keys.filter _
  proper m hm := hdb.proper m (List.mem_of_mem_filter hm)
  owner m hm := by
    obtain ⟨hmem, hkept⟩ := List.mem_filter.1 hm
    obtain ⟨e, he, hmerged, hgone⟩ := hdb.owner m hmem
    have hkept : ¬ isExpired db cutoff m.entityID = true := of_decide_eq_true hkept
    have hexpired : e.expired cutoff = false := by
      rw [← hdb.isExpired_eq he]
      exact eq_false_of_ne_true hkept
    refine ⟨purged db cutoff e, ?_, ?_, hgone⟩
    · rw [hdb.lookup_purge, he]
      simp [Option.filter, hexpired]
    · rw [purged, hmerged]
      rfl
  redirect id e' target he' htarget := by
    rw [hdb.lookup_purge] at he'
    obtain ⟨e, he, rfl⟩ := Option.map_eq_some_iff.1 he'
    obtain ⟨he, -⟩ := Option.filter_eq_some_iff.1 he
    obtain ⟨htarget, hkept⟩ := Option.filter_eq_some_iff.1 htarget
    obtain ⟨winner, hwinner, hmerged⟩ := hdb.redirect id e target he htarget
    have hexpired : winner.expired cutoff = false := by
      rw [← hdb.isExpired_eq hwinner]
      simpa using hkept
    refine ⟨purged db cutoff winner, ?_, ?_⟩
    · rw [hdb.lookup_purge, hwinner]
      simp [Option.filter, hexpired]
    · rw [purged, hmerged]
      rfl

end Purge

/-! ### Clock texts that do not decrease -/

/-- A redirect was made before the last reconciliation, and before its target was gone. -/
def MergedBefore (db : Db) (clock : Bytes) : Prop :=
  ∀ id e target, lookup EntityIdentity.id db.entities id = some e → e.mergedInto = some target →
    ∃ t, e.mergedAt = some t ∧ t ≤ clock ∧
      ∀ winner, lookup EntityIdentity.id db.entities target = some winner →
        ∀ g, winner.goneAt = some g → t ≤ g

theorem MergedBefore.reconcile {db : Db} {clusters : List Cluster} {preserve newIds : List Bytes}
    {clock now : Bytes} (hdb : TablesOk db) (h : Input db clusters preserve newIds)
    (hmerged : MergedBefore db clock) (hclock : clock ≤ now) :
    MergedBefore (reconcileEntityIdentities db clusters preserve newIds now) now := by
  have hspec := choice_spec hdb h.sorted
  rw [reconcileEntityIdentities_eq hdb h]
  intro id e' target he' htarget
  rcases merged_after hdb h.sorted.clusterKeys hspec he' htarget with
    ⟨⟨d, hd, rfl⟩, hstamp⟩ | ⟨e, t, he, ht, rfl, hstamp⟩
  · refine ⟨now, hstamp, List.le_refl _, ?_⟩
    -- the identity of a cluster is not gone
    intro winner hwinner g hg
    obtain ⟨w, hw, -, hgone⟩ := lookup_chosen preserve now hdb h.sorted.clusterKeys hspec hd
    rw [tablesAfter, hw] at hwinner
    rw [← Option.some.inj hwinner, hgone] at hg
    cases hg
  · obtain ⟨s, hs, hsclock, hbefore⟩ := hmerged id e t he ht
    refine ⟨s, hstamp.trans hs, List.le_trans hsclock hclock, ?_⟩
    intro winner hwinner g hg
    obtain ⟨old, hold, hunmerged⟩ := hdb.redirect id e t he ht
    obtain ⟨w, hw, -, hstate⟩ :=
      entity_after preserve now hdb h.sorted.clusterKeys hspec hold hunmerged
    rw [hw] at hwinner
    obtain rfl := Option.some.inj hwinner
    rcases hstate with hgone | ⟨-, rfl⟩
    · rw [hgone] at hg
      cases hg
    · -- the target is gone now, or it was gone already
      rw [settled] at hg
      split at hg
      · rw [← Option.some.inj hg]
        exact List.le_trans hsclock hclock
      · exact hbefore old hold g hg

theorem MergedBefore.purge {db : Db} {clock cutoff : Bytes} (hdb : TablesOk db)
    (hmerged : MergedBefore db clock) :
    MergedBefore (deleteExpiredEntityIdentities db cutoff) clock := by
  intro id e' target he' htarget
  rw [hdb.lookup_purge] at he'
  obtain ⟨e, he, rfl⟩ := Option.map_eq_some_iff.1 he'
  obtain ⟨he, -⟩ := Option.filter_eq_some_iff.1 he
  obtain ⟨htarget, -⟩ := Option.filter_eq_some_iff.1 htarget
  obtain ⟨t, ht, hclock, hbefore⟩ := hmerged id e target he htarget
  refine ⟨t, ht, hclock, ?_⟩
  intro winner hwinner g hg
  rw [hdb.lookup_purge] at hwinner
  obtain ⟨w, hw, rfl⟩ := Option.map_eq_some_iff.1 hwinner
  exact hbefore w (Option.filter_eq_some_iff.1 hw).1 g hg

/-- **A purge deletes the losers of a winner that it deletes**, so identities stay gone exactly
without active members. -/
theorem goneIff_purge {db : Db} {clock cutoff : Bytes} (hdb : TablesOk db)
    (hmerged : MergedBefore db clock) (hgone : GoneIff db) :
    GoneIff (deleteExpiredEntityIdentities db cutoff) := by
  intro e' hmem hnone
  have he' := hdb.purge.ids.lookup_of_mem hmem
  rw [hdb.lookup_purge] at he'
  obtain ⟨e, he, rfl⟩ := Option.map_eq_some_iff.1 he'
  obtain ⟨he, hkept⟩ := Option.filter_eq_some_iff.1 he
  have hexpired : e.expired cutoff = false := by simpa using hkept
  have hunmerged : e.mergedInto = none := by
    cases htarget : e.mergedInto with
    | none => rfl
    | some target =>
        obtain ⟨t, ht, -, hbefore⟩ := hmerged _ e target he htarget
        obtain ⟨winner, hwinner, hwinnerMerged⟩ := hdb.redirect _ e target he htarget
        have hdeleted : winner.expired cutoff = true := by
          rw [← hdb.isExpired_eq hwinner]
          rw [purged, htarget] at hnone
          simpa [Option.filter] using hnone
        rw [EntityIdentity.expired, hwinnerMerged] at hdeleted
        simp only [Option.isSome_none, Bool.false_and, Bool.or_false, Option.any_eq_true,
          decide_eq_true_eq] at hdeleted
        obtain ⟨g, hg, hcutoff⟩ := hdeleted
        have hlt : t < cutoff := List.lt_of_le_of_lt (hbefore winner hwinner g hg) hcutoff
        rw [EntityIdentity.expired, htarget, ht] at hexpired
        simp [hlt] at hexpired
  have hid : lookup EntityIdentity.id db.entities e.id = some e := he
  rw [show (purged db cutoff e).goneAt = e.goneAt from rfl,
    hgone e (lookup_eq_some hid).1 hunmerged]
  refine not_congr ⟨?_, ?_⟩
  · rintro ⟨m, hm, hentity, hactive⟩
    have hkept : ¬ isExpired db cutoff m.entityID = true := by
      rw [show m.entityID = e.id from hentity, hdb.isExpired_eq hid, hexpired]
      exact Bool.false_ne_true
    exact ⟨m, List.mem_filter.2 ⟨hm, decide_eq_true hkept⟩, hentity, hactive⟩
  · rintro ⟨m, hm, hentity, hactive⟩
    exact ⟨m, List.mem_of_mem_filter hm, hentity, hactive⟩

/-! ### Runs -/

/-- The tables, and the clock text of the last reconciliation. -/
structure World where
  db : Db
  clock : Bytes

/-- A reconciliation, with the ids generated in it, or a purge. -/
inductive Event
  | reconcile (clusters : List Cluster) (preserve newIds : List Bytes) (now : Bytes)
  | purge (cutoff : Bytes)

/-- **Reconciliations and purges**, in any order, from empty tables. -/
def lifecycle : Machine World Event where
  init w := w = ⟨⟨[], []⟩, []⟩
  step w a w' :=
    match a with
    | .reconcile clusters preserve newIds now =>
        Input w.db clusters preserve newIds ∧
          w' = ⟨reconcileEntityIdentities w.db clusters preserve newIds now, now⟩
    | .purge cutoff => w' = ⟨deleteExpiredEntityIdentities w.db cutoff, w.clock⟩

/-- The clock text of a reconciliation is no less than that of the one before. -/
def Timely (w : World) : Event → Prop
  | .reconcile _ _ _ now => w.clock ≤ now
  | .purge _ => True

theorem tablesOk_nil : TablesOk ⟨[], []⟩ where
  ids := List.nodup_nil
  keys := List.nodup_nil
  proper := fun _ hm => absurd hm List.not_mem_nil
  owner := fun _ hm => absurd hm List.not_mem_nil
  redirect := fun _ _ _ he => nomatch he

theorem tablesOk_step {w w' : World} {a : Event} (hdb : TablesOk w.db)
    (hstep : lifecycle.step w a w') : TablesOk w'.db := by
  cases a with
  | reconcile clusters preserve newIds now =>
      obtain ⟨h, rfl⟩ := hstep
      exact hdb.reconcile h
  | purge cutoff =>
      obtain rfl := hstep
      exact hdb.purge

theorem timely_step {w w' : World} {a : Event}
    (h : TablesOk w.db ∧ MergedBefore w.db w.clock ∧ GoneIff w.db)
    (hstep : (lifecycle.restrict Timely).step w a w') :
    TablesOk w'.db ∧ MergedBefore w'.db w'.clock ∧ GoneIff w'.db := by
  obtain ⟨hdb, hmerged, hgone⟩ := h
  obtain ⟨htimely, hstep⟩ := hstep
  refine ⟨tablesOk_step hdb hstep, ?_⟩
  cases a with
  | reconcile clusters preserve newIds now =>
      obtain ⟨h, rfl⟩ := hstep
      exact ⟨hmerged.reconcile hdb h htimely, goneIff_reconcile hdb h⟩
  | purge cutoff =>
      obtain rfl := hstep
      exact ⟨hmerged.purge hdb, goneIff_purge hdb hmerged hgone⟩

/-- **What holds in every run** of reconciliations and purges: there is one row for each member; an
active member belongs to an identity that is neither merged nor gone; redirects lead to identities
that are not merged; right after a reconciliation each cluster has an identity of its own, and
identities are gone exactly without active members; and the latter holds at all times if clock texts
do not decrease. -/
theorem identity_lifecycle {w₀ w : World} {as : List Event} (h₀ : lifecycle.init w₀)
    (hrun : lifecycle.Run w₀ as w) :
    KeyNodup StoredIdentityMember.columns w.db.members ∧
    (∀ m ∈ w.db.members, m.goneAt = none →
      ∃ e ∈ w.db.entities, e.id = m.entityID ∧ e.mergedInto = none ∧ e.goneAt = none) ∧
    (∀ e ∈ w.db.entities, ∀ target, e.mergedInto = some target →
      ∃ e' ∈ w.db.entities, e'.id = target ∧ e'.mergedInto = none) ∧
    (∀ past clusters preserve newIds now,
      as = past ++ [.reconcile clusters preserve newIds now] →
        Clustered w.db clusters ∧ GoneIff w.db) ∧
    ((lifecycle.restrict Timely).Run w₀ as w → GoneIff w.db) := by
  obtain rfl := h₀
  have hdb : TablesOk w.db :=
    hrun.invariant (I := fun w => TablesOk w.db) (fun _ _ _ => tablesOk_step) tablesOk_nil
  refine ⟨?_, ?_, ?_, ?_, ?_⟩
  · refine List.Nodup.map_on ?_ (List.Nodup.of_map _ hdb.keys)
    intro m hm m' hm' heq
    exact hdb.keys.eq_of_key hm hm'
      ((StoredIdentityMember.key_iff (hdb.proper m hm) (hdb.proper m' hm')).2 heq)
  · intro m hm hactive
    obtain ⟨e, he, hmerged, hgone⟩ := hdb.owner m hm
    obtain ⟨hmem, hid⟩ := lookup_eq_some he
    exact ⟨e, hmem, hid, hmerged, hgone hactive⟩
  · intro e he target htarget
    obtain ⟨e', he', hmerged⟩ := hdb.redirect e.id e target (hdb.ids.lookup_of_mem he) htarget
    obtain ⟨hmem, hid⟩ := lookup_eq_some he'
    exact ⟨e', hmem, hid, hmerged⟩
  · rintro past clusters preserve newIds now rfl
    obtain ⟨v, hpast, hlast⟩ := hrun.split
    obtain ⟨v', hstep, hnil⟩ := hlast.head
    obtain rfl := hnil.nil_inv
    obtain ⟨h, rfl⟩ := hstep
    have hv : TablesOk v.db :=
      hpast.invariant (I := fun w => TablesOk w.db) (fun _ _ _ => tablesOk_step) tablesOk_nil
    exact ⟨clustered_reconcile hv h, goneIff_reconcile hv h⟩
  · intro htimely
    refine (htimely.invariant (I := fun w => TablesOk w.db ∧ MergedBefore w.db w.clock ∧
      GoneIff w.db) (fun _ _ _ => timely_step) ⟨tablesOk_nil, ?_, ?_⟩).2.2
    · intro id e target he
      cases he
    · intro e he
      cases he

/-! ### Samples -/

/-- The observation of a machine. -/
def sampleObservation (connectorID kind ref : Bytes) : EntityMemberRecord :=
  ⟨connectorID, kind, ref, bytes "nas", bytes "2026-01-01T00:00:00Z"⟩

def World.next (w : World) : Event → World
  | .reconcile clusters preserve newIds now =>
      ⟨reconcileEntityIdentities w.db clusters preserve newIds now, now⟩
  | .purge cutoff => ⟨deleteExpiredEntityIdentities w.db cutoff, w.clock⟩

/-- Two connectors see one machine each. -/
def sampleApart : List Event :=
  [.reconcile [[sampleObservation [1] [7] [4]], [sampleObservation [2] [7] [5]]] [] [[10], [11]]
    (bytes "2026-01-01T00:00:00Z")]

/-- Then it is one machine. -/
def sampleTogether : List Event :=
  sampleApart ++ [.reconcile [[sampleObservation [1] [7] [4], sampleObservation [2] [7] [5]]] []
    [[12]] (bytes "2026-01-01T00:00:00Z")]

/-- Then, half a second later, no connector sees it, and long after that a purge is made. -/
def sampleGone : List Event :=
  sampleTogether ++ [.reconcile [] [] [] (bytes "2026-01-01T00:00:00.5Z"),
    .purge (bytes "2026-01-01T00:00:00Z")]

def sampleWorld (as : List Event) : World := as.foldl World.next ⟨⟨[], []⟩, []⟩

theorem sampleTogether_run :
    lifecycle.Run ⟨⟨[], []⟩, []⟩ sampleTogether (sampleWorld sampleTogether) := by
  refine .cons ⟨?_, rfl⟩ (.cons ⟨?_, rfl⟩ .nil)
  · constructor <;> decide
  · constructor <;> decide

theorem sampleGone_run : lifecycle.Run ⟨⟨[], []⟩, []⟩ sampleGone (sampleWorld sampleGone) := by
  refine sampleTogether_run.append (.cons ⟨?_, rfl⟩ (.cons rfl .nil))
  constructor <;> decide

theorem identity_lifecycle_sample :
    Clustered (sampleWorld sampleTogether).db
        [[sampleObservation [1] [7] [4], sampleObservation [2] [7] [5]]] ∧
      GoneIff (sampleWorld sampleTogether).db :=
  (identity_lifecycle rfl sampleTogether_run).2.2.2.1 sampleApart _ _ _ _ rfl

/-- Two observations with one joined key: the kind of one and the reference of the other have a NUL
byte. -/
def sampleCollision : List Cluster × List Cluster :=
  ([[sampleObservation [1] [7, 0, 8] [9]]], [[sampleObservation [1] [7] [8, 0, 9]]])

/-- **Where a run differs**: an observation whose joined key is that of another member gets no row;
and an instant without a fraction is a greater text than a later instant of the same second, so that
a purge may delete a winner and keep its loser, which then is neither merged nor gone and has no
members. -/
theorem identity_lifecycle_fails :
    (KeyNodup EntityMemberRecord.key sampleCollision.1.flatten ∧
      KeyNodup EntityMemberRecord.key sampleCollision.2.flatten ∧
      ¬ Clustered (reconcileEntityIdentities (reconcileEntityIdentities ⟨[], []⟩ sampleCollision.1 []
        [[10]] (bytes "2026-01-01T00:00:00Z")) sampleCollision.2 [] [[11]]
        (bytes "2026-01-02T00:00:00Z")) sampleCollision.2) ∧
    (lifecycle.Run ⟨⟨[], []⟩, []⟩ sampleGone (sampleWorld sampleGone) ∧
      ¬ GoneIff (sampleWorld sampleGone).db) := by
  refine ⟨⟨by decide, by decide, ?_⟩, sampleGone_run, ?_⟩
  · rintro ⟨identity, -, hrows⟩
    obtain ⟨row, hrow, hcolumns, -⟩ := hrows _ (List.mem_singleton.2 rfl) _ (List.mem_singleton.2 rfl)
    have hnone : ∀ row ∈ (reconcileEntityIdentities (reconcileEntityIdentities ⟨[], []⟩
        sampleCollision.1 [] [[10]] (bytes "2026-01-01T00:00:00Z")) sampleCollision.2 [] [[11]]
        (bytes "2026-01-02T00:00:00Z")).members,
          row.columns ≠ (sampleObservation [1] [7] [8, 0, 9]).columns := by
      decide
    exact hnone row hrow hcolumns
  · intro hgone
    have hleft : ∃ e ∈ (sampleWorld sampleGone).db.entities,
        e.mergedInto = none ∧ e.goneAt = none := by
      decide
    have hmembers : (sampleWorld sampleGone).db.members = [] := by decide
    obtain ⟨e, he, hmerged, hactive⟩ := hleft
    refine (hgone e he hmerged).2 ?_ hactive
    rintro ⟨m, hm, -⟩
    rw [hmembers] at hm
    cases hm

end WiseLabz.Identity
