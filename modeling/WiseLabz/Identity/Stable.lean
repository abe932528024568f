/-
**Reconciling again.**

After a reconciliation without preserved connectors the members of each cluster are those of one
identity.  So each cluster has one identity to claim when the same clusters are reconciled again,
and no other cluster has it: the greedy choice is at its fixed point, whatever its order.  What may
still change are the two instants that come from the clock.  Where the identities of different
clusters are different from the start, the order of the claims does not matter either, and each
cluster keeps the oldest of its identities.

Main definitions:

* `Identity.Owned` — a cluster has a member of an identity;
* `Identity.ownIdentities` — the identities that a cluster claims if no other cluster does;
* `Identity.SameButClock` — a row is the same, except for what the clock sets.

Main results:

* `Identity.apart_choice` — what is chosen if no two clusters have an identity in common;
* `Identity.choice_again` — what is chosen when the same clusters are reconciled again;
* `Identity.reconcile_stable` — **a reconciliation is stable**.
-/

import WiseLabz.Identity.SeenTimes

set_option relaxedAutoImplicit false
set_option autoImplicit false

namespace WiseLabz.Identity

open Lib

/-! ### The oldest identity -/

section Older

variable {entities : List EntityIdentity} {a b c : Bytes}

/-- The order of the identities: by the first instant, then by the id. -/
theorem not_older_iff :
    ¬ older entities b a = true ↔
      (entityOf entities a).firstSeen < (entityOf entities b).firstSeen ∨
        (entityOf entities a).firstSeen = (entityOf entities b).firstSeen ∧ a ≤ b := by
  unfold older
  by_cases heq : (entityOf entities b).firstSeen = (entityOf entities a).firstSeen
  · simp only [heq, ne_eq, not_true_eq_false, if_false, decide_eq_true_eq, Std.not_lt, true_and]
    exact ⟨Or.inr, fun h => h.elim (fun h => absurd h (Std.lt_irrefl)) id⟩
  · simp only [ne_eq, heq, not_false_eq_true, if_true, decide_eq_true_eq, Ne.symm heq, false_and,
      or_false, Std.not_lt]
    exact ⟨fun hle => Std.lt_of_le_of_ne hle (Ne.symm heq), Std.le_of_lt⟩

/-- The order is total. -/
theorem not_older_total (a b : Bytes) :
    ¬ older entities b a = true ∨ ¬ older entities a b = true := by
  rw [not_older_iff, not_older_iff]
  by_cases heq : (entityOf entities a).firstSeen = (entityOf entities b).firstSeen
  · rcases Std.le_total (a := a) (b := b) with hle | hle
    · exact Or.inl (Or.inr ⟨heq, hle⟩)
    · exact Or.inr (Or.inr ⟨heq.symm, hle⟩)
  · rcases Std.le_total (a := (entityOf entities a).firstSeen)
      (b := (entityOf entities b).firstSeen) with hle | hle
    · exact Or.inl (Or.inl (Std.lt_of_le_of_ne hle heq))
    · exact Or.inr (Or.inl (Std.lt_of_le_of_ne hle (Ne.symm heq)))

theorem not_older_trans (h : ¬ older entities b a = true) (h' : ¬ older entities c b = true) :
    ¬ older entities c a = true := by
  rw [not_older_iff] at h h' ⊢
  rcases h with hlt | ⟨heq, hle⟩
  · refine Or.inl ?_
    rcases h' with hlt' | ⟨heq', -⟩
    · exact Std.lt_trans hlt hlt'
    · exact heq' ▸ hlt
  · rw [heq]
    exact h'.imp_right fun h' => ⟨h'.1, Std.le_trans hle h'.2⟩

/-- Of two identities one is older. -/
theorem older_of_not_older (hne : a ≠ b) (h : ¬ older entities b a = true) :
    older entities a b = true := by
  by_contra hnot
  rw [not_older_iff] at h hnot
  rcases h with hlt | ⟨heq, hle⟩
  · rcases hnot with hlt' | ⟨heq', -⟩
    · exact Std.lt_irrefl (Std.lt_trans hlt hlt')
    · rw [heq'] at hlt
      exact Std.lt_irrefl hlt
  · rcases hnot with hlt' | ⟨-, hle'⟩
    · rw [heq] at hlt'
      exact Std.lt_irrefl hlt'
    · exact hne (Std.le_antisymm hle hle')

end Older

/-! ### Clusters that have no identity in common -/

section Apart

variable {entities : List EntityIdentity} {members : List StoredIdentityMember}

/-- The identities that a cluster claims if no other cluster does, the oldest first. -/
def ownIdentities (cluster : Cluster) (members : List StoredIdentityMember)
    (entities : List EntityIdentity) : List Bytes :=
  claimable cluster members entities ⟨[], [], []⟩

theorem mem_ownIdentities {cluster : Cluster} {id : Bytes} :
    id ∈ ownIdentities cluster members entities ↔
      id ∈ candidates cluster members entities ∧ id ≠ [] := by
  rw [ownIdentities, claimable, List.mem_insertionSort, List.mem_filter]
  simp [mergeTarget]

theorem ownIdentities_nodup (cluster : Cluster) :
    (ownIdentities cluster members entities).Nodup :=
  (List.perm_insertionSort _ _).nodup_iff.2 ((List.nodup_dedup _).filter _)

/-- The first of the identities is older than the others. -/
theorem ownIdentities_oldest {cluster : Cluster} {id : Bytes} {losers : List Bytes}
    (h : ownIdentities cluster members entities = id :: losers) :
    ∀ loser ∈ losers, loser ≠ id ∧ older entities id loser = true := by
  have htotal : Std.Total fun a b => ¬ older entities b a = true :=
    ⟨fun a b => not_older_total a b⟩
  have htrans : IsTrans Bytes fun a b => ¬ older entities b a = true :=
    ⟨fun _ _ _ => not_older_trans⟩
  have hsorted : (ownIdentities cluster members entities).Pairwise
      fun a b => ¬ older entities b a = true := List.pairwise_insertionSort _ _
  have hnodup : (ownIdentities cluster members entities).Nodup := ownIdentities_nodup cluster
  rw [h] at hsorted hnodup
  intro loser hloser
  have hne : loser ≠ id := fun heq => (List.nodup_cons.1 hnodup).1 (heq ▸ hloser)
  exact ⟨hne, older_of_not_older hne.symm (List.rel_of_pairwise_cons hsorted hloser)⟩

/-- What has been chosen after the clusters `done`, if no two clusters have an identity in
common. -/
structure ApartOk (members : List StoredIdentityMember) (entities : List EntityIdentity)
    (done : List (Cluster × Bytes)) (c : IdentityChoice) : Prop where
  used : ∀ id ∈ c.used, ∃ p ∈ done, id ∈ ownIdentities p.1 members entities
  merged : ∀ x ∈ c.mergedInto, ∃ p ∈ done, x.1 ∈ (ownIdentities p.1 members entities).tail
  /-- The oldest identity is claimed. -/
  chosen : ∀ p ∈ done,
    chosenID c.chosen p.1 = (ownIdentities p.1 members entities).head?.getD p.2
  /-- The others are merged into it. -/
  losers : ∀ p ∈ done, ∀ loser ∈ (ownIdentities p.1 members entities).tail,
    mergeTarget c.mergedInto loser = (ownIdentities p.1 members entities).head?

theorem ApartOk.claim {done : List (Cluster × Bytes)} {c : IdentityChoice}
    (h : ApartOk members entities done c) {p : Cluster × Bytes}
    (hkey : ∀ q ∈ done, clusterKey q.1 ≠ clusterKey p.1)
    (hapart : ∀ q ∈ done, ∀ id ∈ ownIdentities q.1 members entities,
      id ∉ ownIdentities p.1 members entities) :
    ApartOk members entities (done ++ [p]) (claimCluster members entities c p) := by
  -- nothing that the cluster may claim is taken
  have hfree : claimable p.1 members entities c = ownIdentities p.1 members entities := by
    rw [ownIdentities, claimable, claimable]
    congr 1
    refine List.filter_congr fun id hid => ?_
    by_cases hnil : id = []
    · simp [hnil]
    · have hown : id ∈ ownIdentities p.1 members entities := mem_ownIdentities.2 ⟨hid, hnil⟩
      have hunused : id ∉ c.used := by
        intro hused
        obtain ⟨q, hq, hmem⟩ := h.used id hused
        exact hapart q hq id hmem hown
      have hunmerged : mergeTarget c.mergedInto id = none := by
        rw [mergeTarget_eq_none]
        rintro x hx rfl
        obtain ⟨q, hq, hmem⟩ := h.merged x hx
        exact hapart q hq x.1 (List.mem_of_mem_tail hmem) hown
      have hnone : mergeTarget [] id = none := rfl
      simp [hunused, hunmerged, hnone]
  have hearlier : ∀ id, ∀ q ∈ done,
      chosenID (put Prod.fst c.chosen (clusterKey p.1, id)) q.1 = chosenID c.chosen q.1 := by
    intro id q hq
    rw [chosenID_put, if_neg (hkey q hq)]
  have hown : ∀ id, chosenID (put Prod.fst c.chosen (clusterKey p.1, id)) p.1 = id := by
    intro id
    rw [chosenID_put, if_pos rfl]
  have hweaken : ∀ {P : Cluster × Bytes → Prop}, (∃ q ∈ done, P q) → ∃ q ∈ done ++ [p], P q := by
    rintro P ⟨q, hq, hP⟩
    exact ⟨q, List.mem_append_left _ hq, hP⟩
  unfold claimCluster
  rw [hfree]
  split
  · next hnone =>
      refine ⟨fun id hid => hweaken (h.used id hid), fun x hx => hweaken (h.merged x hx), ?_, ?_⟩
      · intro q hq
        rcases List.mem_append.1 hq with hq | hq
        · exact (hearlier p.2 q hq).trans (h.chosen q hq)
        · rw [List.mem_singleton.1 hq, hnone]
          exact hown p.2
      · intro q hq loser hloser
        rcases List.mem_append.1 hq with hq | hq
        · exact h.losers q hq loser hloser
        · rw [List.mem_singleton.1 hq, hnone] at hloser
          cases hloser
  · next id losers hids =>
      have hlosers : losers.Nodup := by
        have hnodup : (ownIdentities p.1 members entities).Nodup := ownIdentities_nodup p.1
        rw [hids] at hnodup
        exact (List.nodup_cons.1 hnodup).2
      have hpairs : KeyNodup Prod.fst (losers.map fun loser => (loser, id)) := by
        rw [KeyNodup, List.map_map]
        simpa [Function.comp_def] using hlosers
      have htarget : ∀ x, mergeTarget (putAll Prod.fst c.mergedInto
          (losers.map fun loser => (loser, id))) x =
            if x ∈ losers then some id else mergeTarget c.mergedInto x := by
        intro x
        rw [mergeTarget, lookup_putAll hpairs]
        split
        · next hx =>
            rw [hpairs.lookup_of_mem (List.mem_map.2 ⟨x, hx, rfl⟩)]
            rfl
        · next hx =>
            have hnone : lookup Prod.fst (losers.map fun loser => (loser, id)) x = none := by
              rw [lookup_eq_none]
              intro y hy hyx
              obtain ⟨loser, hloser, rfl⟩ := List.mem_map.1 hy
              exact hx (hyx ▸ hloser)
            rw [hnone, Option.none_or, mergeTarget]
      refine ⟨?_, ?_, ?_, ?_⟩
      · intro x hx
        rcases List.mem_cons.1 hx with rfl | hx
        · exact ⟨p, by simp, by rw [hids]; exact List.mem_cons_self⟩
        · exact hweaken (h.used x hx)
      · intro x hx
        rcases mem_putAll hx with hx | hx
        · obtain ⟨loser, hloser, rfl⟩ := List.mem_map.1 hx
          exact ⟨p, by simp, by rw [hids]; exact hloser⟩
        · exact hweaken (h.merged x hx)
      · intro q hq
        rcases List.mem_append.1 hq with hq | hq
        · exact (hearlier id q hq).trans (h.chosen q hq)
        · rw [List.mem_singleton.1 hq, hids]
          exact hown id
      · intro q hq loser hloser
        rw [htarget]
        rcases List.mem_append.1 hq with hq | hq
        · have hother : loser ∉ losers := by
            intro hmem
            refine hapart q hq loser (List.mem_of_mem_tail hloser) ?_
            rw [hids]
            exact List.mem_cons_of_mem _ hmem
          rw [if_neg hother]
          exact h.losers q hq loser hloser
        · rw [List.mem_singleton.1 hq, hids] at hloser ⊢
          exact if_pos hloser

/-- All clusters claim, in whatever order. -/
theorem ApartOk.run {done todo : List (Cluster × Bytes)} {c : IdentityChoice}
    (h : ApartOk members entities done c)
    (hkeys : KeyNodup (fun p => clusterKey p.1) (done ++ todo))
    (hapart : ∀ p ∈ done ++ todo, ∀ q ∈ done ++ todo, ∀ id ∈ ownIdentities p.1 members entities,
      id ∈ ownIdentities q.1 members entities → p.1 = q.1) :
    ApartOk members entities (done ++ todo) (todo.foldl (claimCluster members entities) c) := by
  induction todo generalizing done c with
  | nil => simpa using h
  | cons p todo ih =>
      have hsplit : done ++ p :: todo = done ++ [p] ++ todo := by simp
      have hbefore : ∀ q ∈ done, clusterKey q.1 ≠ clusterKey p.1 := by
        intro q hq
        rw [KeyNodup, List.map_append, List.nodup_append] at hkeys
        exact hkeys.2.2 _ (List.mem_map_of_mem hq) _ (by simp)
      have hother : ∀ q ∈ done, ∀ id ∈ ownIdentities q.1 members entities,
          id ∉ ownIdentities p.1 members entities := by
        intro q hq id hid hid'
        have heq := hapart q (List.mem_append_left _ hq) p (by simp) id hid hid'
        exact hbefore q hq (congrArg clusterKey heq)
      rw [List.foldl_cons, hsplit]
      exact ih (h.claim hbefore hother) (hsplit ▸ hkeys) (hsplit ▸ hapart)

/-- **What is chosen if no two clusters have an identity in common**: each cluster claims the oldest
of its identities, and the others are merged into that one. -/
theorem apart_choice {db : Db} {clusters : List Cluster} {preserve newIds : List Bytes}
    (h : Input db clusters preserve newIds)
    (hapart : ∀ c ∈ clusters, ∀ d ∈ clusters, ∀ id ∈ ownIdentities c members entities,
      id ∈ ownIdentities d members entities → c = d) :
    (∀ d ∈ clusters, ∀ id losers, ownIdentities d members entities = id :: losers →
      chosenID (chooseIdentityIDs clusters newIds members entities).chosen d = id ∧
      ∀ loser ∈ losers, mergeTarget
        (chooseIdentityIDs clusters newIds members entities).mergedInto loser = some id) ∧
    ∀ x ∈ (chooseIdentityIDs clusters newIds members entities).mergedInto,
      ∃ d ∈ clusters, x.1 ∈ (ownIdentities d members entities).tail := by
  obtain ⟨order, hperm, heq⟩ := chooseIdentityIDs_order clusters newIds members entities
  obtain ⟨hfst, -, hkeys⟩ := h.zip hperm
  have hcluster : ∀ p ∈ order.zip newIds, p.1 ∈ clusters :=
    fun p hp => hperm.mem_iff.1 (hfst ▸ List.mem_map_of_mem hp)
  have hnil : ApartOk members entities [] ⟨[], [], []⟩ := by constructor <;> simp
  have hrun : ApartOk members entities (order.zip newIds)
      (chooseIdentityIDs clusters newIds members entities) := by
    rw [heq]
    exact hnil.run hkeys fun p hp q hq => hapart p.1 (hcluster p hp) q.1 (hcluster q hq)
  constructor
  · intro d hd id losers hids
    rw [← hperm.mem_iff, ← hfst] at hd
    obtain ⟨p, hp, rfl⟩ := List.mem_map.1 hd
    refine ⟨(hrun.chosen p hp).trans (by rw [hids]; rfl), fun loser hloser => ?_⟩
    exact (hrun.losers p hp loser (by rw [hids]; exact hloser)).trans (by rw [hids]; rfl)
  · intro x hx
    obtain ⟨p, hp, hmem⟩ := hrun.merged x hx
    exact ⟨p.1, hcluster p hp, hmem⟩

end Apart

/-! ### The same clusters again -/

section Again

variable {db : Db} {clusters : List Cluster} {choice : IdentityChoice} {newIds : List Bytes}
  {now : Bytes}

/-- After a reconciliation without preserved connectors, the active members are those of the
clusters. -/
theorem active_desired {row : StoredIdentityMember}
    (hrow : row ∈ (tablesAfter db clusters choice [] now).members) (hactive : row.goneAt = none) :
    (lookup StoredIdentityMember.key (desired clusters choice.chosen) row.key).isSome = true := by
  obtain ⟨r, hr, rfl⟩ := List.mem_map.1 hrow
  change (lookup StoredIdentityMember.key (desired clusters choice.chosen) r.key).isSome = true
  rcases List.mem_append.1 hr with hr | hr
  · obtain ⟨old, hold, rfl⟩ := List.mem_map.1 hr
    rw [(settledMember_key _ old).1]
    change (settledMember (desired clusters choice.chosen) [] now old).goneAt = none at hactive
    rw [settledMember] at hactive
    cases hm : lookup StoredIdentityMember.key (desired clusters choice.chosen) old.key with
    | some m => rfl
    | none =>
        -- what no cluster observes is gone
        rw [hm] at hactive
        by_cases hgone : old.goneAt = none
        · simp [hgone] at hactive
        · simp [hgone] at hactive
  · exact lookup_isSome.2 ⟨r, List.mem_of_mem_filter hr, rfl⟩

/-- After a reconciliation without preserved connectors, an active member is as it should be. -/
theorem active_mem_desired (hdb : TablesOk db) (h : Input db clusters [] newIds)
    (hspec : ChoiceSpec db.entities clusters choice) {row : StoredIdentityMember}
    (hrow : row ∈ (tablesAfter db clusters choice [] now).members) (hactive : row.goneAt = none) :
    row ∈ desired clusters choice.chosen := by
  obtain ⟨m, hm⟩ := Option.isSome_iff_exists.1 (active_desired hrow hactive)
  obtain ⟨hmem, hkey⟩ := lookup_eq_some hm
  have hafter : TablesOk (tablesAfter db clusters choice [] now) := hdb.after h hspec
  rwa [← hafter.keys.eq_of_key (desired_mem_after [] now hdb h hspec hmem) hrow hkey]

/-- The cluster has one identity now. -/
theorem ownIdentities_after (hdb : TablesOk db) (h : Input db clusters [] newIds)
    (hspec : ChoiceSpec db.entities clusters choice) {d : Cluster} (hd : d ∈ clusters)
    (hnil : chosenID choice.chosen d ≠ []) :
    ownIdentities d (tablesAfter db clusters choice [] now).members
      (tablesAfter db clusters choice [] now).entities = [chosenID choice.chosen d] := by
  have hafter : TablesOk (tablesAfter db clusters choice [] now) := hdb.after h hspec
  have hmember : ∀ o ∈ d, (lookup StoredIdentityMember.key
      (tablesAfter db clusters choice [] now).members o.key).map (fun old =>
        resolveExistingIdentity old.entityID (tablesAfter db clusters choice [] now).entities) =
      some (chosenID choice.chosen d) := by
    intro o ho
    have hmem := desired_mem_after [] now hdb h hspec (mem_desired.2 ⟨d, hd, o, ho, rfl⟩)
    have hlookup := hafter.keys.lookup_of_mem hmem
    have hresolve := hafter.resolve hmem
    rw [show o.key = (⟨chosenID choice.chosen d, o.connectorID, o.kind, o.ref, o.name, none⟩ :
      StoredIdentityMember).key from rfl, hlookup]
    exact congrArg some hresolve
  have hcandidates : candidates d (tablesAfter db clusters choice [] now).members
      (tablesAfter db clusters choice [] now).entities = [chosenID choice.chosen d] := by
    have hlength : d.length ≠ 0 := fun hzero => h.nonempty d hd (List.length_eq_zero_iff.1 hzero)
    rw [candidates, List.filterMap_congr hmember, List.filterMap_eq_map' (f := fun _ => _),
      List.map_const', List.replicate_dedup hlength]
  rw [ownIdentities, claimable, hcandidates]
  simp [hnil, mergeTarget]

/-- **What is chosen when the same clusters are reconciled again**: the same, without merges. -/
theorem choice_again (hdb : TablesOk db) (h : Input db clusters [] newIds)
    (hspec : ChoiceSpec db.entities clusters choice)
    (hnil : ∀ d ∈ clusters, chosenID choice.chosen d ≠ []) {newIds' : List Bytes}
    (h' : Input (tablesAfter db clusters choice [] now) clusters [] newIds') :
    let again := chooseIdentityIDs clusters newIds' (tablesAfter db clusters choice [] now).members
      (tablesAfter db clusters choice [] now).entities
    (∀ d ∈ clusters, chosenID again.chosen d = chosenID choice.chosen d) ∧
      again.mergedInto = [] := by
  have hown : ∀ d ∈ clusters, ownIdentities d (tablesAfter db clusters choice [] now).members
      (tablesAfter db clusters choice [] now).entities = [chosenID choice.chosen d] :=
    fun d hd => ownIdentities_after hdb h hspec hd (hnil d hd)
  obtain ⟨hchosen, hmerged⟩ := apart_choice h' (by
    intro c hc d hd id hid hid'
    rw [hown c hc, List.mem_singleton] at hid
    rw [hown d hd, List.mem_singleton] at hid'
    exact h.clusterKeys.eq_of_key hc hd (hspec.distinct c hc d hd (hid.symm.trans hid')))
  refine ⟨fun d hd => (hchosen d hd _ [] (hown d hd)).1, ?_⟩
  refine List.eq_nil_iff_forall_not_mem.2 fun x hx => ?_
  obtain ⟨d, hd, hmem⟩ := hmerged x hx
  rw [hown d hd] at hmem
  cases hmem

/-- The members that the clusters should have are the same. -/
theorem desired_congr {again : IdentityChoice}
    (hchosen : ∀ d ∈ clusters, chosenID again.chosen d = chosenID choice.chosen d) :
    desired clusters again.chosen = desired clusters choice.chosen := by
  rw [desired, desired, List.flatMap_def, List.flatMap_def]
  congr 1
  refine List.map_congr_left fun d hd => ?_
  rw [hchosen d hd]

/-- **No member changes** when the same clusters are reconciled again. -/
theorem members_again (hdb : TablesOk db) (h : Input db clusters [] newIds)
    (hspec : ChoiceSpec db.entities clusters choice) {again : IdentityChoice} {now' : Bytes}
    (hchosen : ∀ d ∈ clusters, chosenID again.chosen d = chosenID choice.chosen d)
    (hmerged : again.mergedInto = []) :
    (tablesAfter (tablesAfter db clusters choice [] now) clusters again [] now').members =
      (tablesAfter db clusters choice [] now).members := by
  have hafter : TablesOk (tablesAfter db clusters choice [] now) := hdb.after h hspec
  have hdesired : ∀ m ∈ desired clusters choice.chosen,
      m ∈ (tablesAfter db clusters choice [] now).members :=
    fun m hm => desired_mem_after [] now hdb h hspec hm
  have hmoved : moved again.mergedInto = id := by
    rw [hmerged]
    rfl
  have hknown : (tablesAfter db clusters choice [] now).members.map
      (settledMember (desired clusters choice.chosen) [] now') =
        (tablesAfter db clusters choice [] now).members := by
    refine (List.map_congr_left fun row hrow => ?_).trans (List.map_id _)
    rw [settledMember]
    cases hm : lookup StoredIdentityMember.key (desired clusters choice.chosen) row.key with
    | some m =>
        obtain ⟨hmem, hkey⟩ := lookup_eq_some hm
        obtain rfl := hafter.keys.eq_of_key (hdesired m hmem) hrow hkey
        obtain ⟨d, -, o, -, rfl⟩ := mem_desired.1 hmem
        rfl
    | none =>
        -- what no cluster observes was gone before
        have hgone : row.goneAt ≠ none := by
          intro hactive
          have hsome := active_desired hrow hactive
          rw [hm] at hsome
          cases hsome
        exact if_pos (Or.inr hgone)
  have hnew : (desired clusters choice.chosen).filter (fun m => (lookup StoredIdentityMember.key
      (tablesAfter db clusters choice [] now).members m.key).isNone) = [] := by
    rw [List.filter_eq_nil_iff]
    intro m hm
    rw [hafter.keys.lookup_of_mem (hdesired m hm)]
    exact Bool.false_ne_true
  rw [tablesAfter, membersSettled, desired_congr hchosen, hmoved, List.map_id]
  dsimp only
  rw [hknown, hnew, List.append_nil]

/-- **What is written when the same clusters are reconciled again**: rows of the clusters. -/
theorem lookup_updates_again (hdb : TablesOk db) (h : Input db clusters [] newIds)
    (hspec : ChoiceSpec db.entities clusters choice) {again : IdentityChoice} {now' : Bytes}
    (hspec' : ChoiceSpec (tablesAfter db clusters choice [] now).entities clusters again)
    (hchosen : ∀ d ∈ clusters, chosenID again.chosen d = chosenID choice.chosen d)
    (hmerged : again.mergedInto = []) (id : Bytes) :
    lookup EntityIdentity.id
        (identityUpdates (tablesAfter db clusters choice [] now) clusters again [] now') id =
      (lookup EntityIdentity.id (clusters.map fun d => clusterIdentity d (chosenID choice.chosen d)
        (tablesAfter db clusters choice [] now).entities now') id).filter
          (identityChanged (tablesAfter db clusters choice [] now).entities) := by
  have hafter : TablesOk (tablesAfter db clusters choice [] now) := hdb.after h hspec
  have hrows : clusters.map (fun d => clusterIdentity d (chosenID again.chosen d)
      (tablesAfter db clusters choice [] now).entities now') =
        clusters.map fun d => clusterIdentity d (chosenID choice.chosen d)
          (tablesAfter db clusters choice [] now).entities now' :=
    List.map_congr_left fun d hd => by rw [hchosen d hd]
  have hunobserved : (lookup EntityIdentity.id (tablesAfter db clusters choice [] now).entities
      id).filter (isUnobserved (activeIdentities (tablesAfter db clusters choice [] now) clusters
        again [] now') again.mergedInto) = none := by
    rw [Option.filter_eq_none_iff]
    intro e he hgone
    simp only [isUnobserved, decide_eq_true_eq] at hgone
    obtain ⟨hunmerged, hinactive, -, hnotGone⟩ := hgone
    -- an identity that is not gone has an active member, so a cluster has it
    have hactive : ActiveMember (tablesAfter db clusters choice [] now) e.id := by
      by_contra hnone
      exact ((goneIff_after hdb h hspec) e (lookup_eq_some he).1 hunmerged).2 hnone hnotGone
    obtain ⟨row, hrow, hid, hrowActive⟩ := hactive
    obtain ⟨d, hd, o, -, rfl⟩ := mem_desired.1 (active_mem_desired hdb h hspec hrow hrowActive)
    refine hinactive ?_
    rw [← hid, ← hchosen d hd]
    exact chosen_active hd
  have hredirects : (lookup EntityIdentity.id (tablesAfter db clusters choice [] now).entities
      id).filter (fun e => e.mergedInto.any fun target => resolveFinalIdentity target
        (tablesAfter db clusters choice [] now).entities again.mergedInto ≠ target) = none := by
    rw [Option.filter_eq_none_iff]
    intro e he hany
    obtain ⟨target, htarget, hmoves⟩ := (Option.any_eq_true _ _).1 hany
    have hexisting := hafter.redirect id e target he htarget
    rw [resolveFinalIdentity_eq hspec' hexisting, hmerged, mergeTarget] at hmoves
    simp at hmoves
  rw [lookup_identityUpdates hafter h.clusterKeys hspec', hunobserved, hredirects, hrows, hmerged]
  rfl

/-- A row with what the clock sets. -/
def clocked (cluster : Cluster) (now : Bytes) (e : EntityIdentity) : EntityIdentity :=
  { e with
    firstSeen := if now < e.firstSeen then now else e.firstSeen
    lastSeen := if ∀ m ∈ cluster, m.observedAt = [] then now else e.lastSeen
    mergedAt := none }

/-- The row of a cluster when the cluster is reconciled again. -/
theorem clusterIdentity_again {entities entities' : List EntityIdentity} {d : Cluster} {id : Bytes}
    {e : EntityIdentity} {now' : Bytes}
    (hrow : { e with mergedAt := none } = clusterIdentity d id entities now)
    (he : lookup EntityIdentity.id entities' id = some e) :
    clusterIdentity d id entities' now' = clocked d now' e := by
  have hle : ∀ x, x ≤ e.firstSeen → x ≤ (clusterIdentity d id entities now).firstSeen := by
    intro x hx
    rw [← hrow]
    exact hx
  rw [clusterIdentity, EntityIdentity.mk.injEq] at hrow
  obtain ⟨hid, hkind, hname, -, hlast, hgone, hmerged, -⟩ := hrow
  have hfirstSeen : (clusterIdentity d id entities' now').firstSeen =
      (clocked d now' e).firstSeen := by
    have hiff : ∀ x, x ≤ (clusterIdentity d id entities' now').firstSeen ↔
        x ≤ (clocked d now' e).firstSeen := by
      intro x
      rw [le_clusterIdentity_firstSeen, clocked]
      simp only [he, Option.some_inj, forall_eq']
      -- the observations were considered before
      have hobserved : x ≤ e.firstSeen → ∀ m ∈ d, m.observedAt ≠ [] → x ≤ m.observedAt :=
        fun hx => (le_clusterIdentity_firstSeen.1 (hle x hx)).2.2
      split
      · next hlt =>
          refine ⟨fun hx => hx.2.1, fun hx => ?_⟩
          have hfirst : x ≤ e.firstSeen := Std.le_trans hx (Std.le_of_lt hlt)
          exact ⟨hfirst, hx, hobserved hfirst⟩
      · next hge =>
          exact ⟨And.left, fun hx => ⟨hx, Std.le_trans hx (Std.not_lt.1 hge), hobserved hx⟩⟩
    exact Std.le_antisymm ((hiff _).1 (Std.le_refl _)) ((hiff _).2 (Std.le_refl _))
  have hlastSeen : (clusterIdentity d id entities' now').lastSeen =
      (clocked d now' e).lastSeen := by
    simp only [clusterIdentity, clocked, hlast, newest_eq_nil]
    split
    · rfl
    · rfl
  rw [clusterIdentity, clocked, EntityIdentity.mk.injEq]
  exact ⟨hid.symm, hkind.symm, hname.symm, hfirstSeen, hlastSeen, hgone.symm, hmerged.symm, rfl⟩

/-- The row is written only if the clock changes it. -/
theorem clocked_changed {entities : List EntityIdentity} {d : Cluster} {e : EntityIdentity}
    (he : lookup EntityIdentity.id entities e.id = some e) (hactive : e.Active)
    (hchanged : identityChanged entities (clocked d now e) = true) :
    now < e.firstSeen ∨ ∀ m ∈ d, m.observedAt = [] := by
  by_contra hnot
  obtain ⟨hge, hinstant⟩ := not_or.1 hnot
  rw [identityChanged, show (clocked d now e).id = e.id from rfl, he] at hchanged
  simp [clocked, hge, hinstant, hactive.1, hactive.2] at hchanged

/-- **What an identity is when the same clusters are reconciled again.** -/
theorem entity_again (hdb : TablesOk db) (h : Input db clusters [] newIds)
    (hspec : ChoiceSpec db.entities clusters choice) {again : IdentityChoice} (now' : Bytes)
    (hspec' : ChoiceSpec (tablesAfter db clusters choice [] now).entities clusters again)
    (hchosen : ∀ d ∈ clusters, chosenID again.chosen d = chosenID choice.chosen d)
    (hmerged : again.mergedInto = []) {id : Bytes} {e : EntityIdentity}
    (he : lookup EntityIdentity.id (tablesAfter db clusters choice [] now).entities id = some e) :
    (lookup EntityIdentity.id
        (identityUpdates (tablesAfter db clusters choice [] now) clusters again [] now') id = none) ∨
      ∃ d ∈ clusters, chosenID choice.chosen d = id ∧ e.firstSeen ≤ now ∧
        (now' < e.firstSeen ∨ ∀ m ∈ d, m.observedAt = []) ∧
        lookup EntityIdentity.id
          (identityUpdates (tablesAfter db clusters choice [] now) clusters again [] now') id =
            some (clocked d now' e) := by
  rw [lookup_updates_again hdb h hspec hspec' hchosen hmerged]
  cases hr : lookup EntityIdentity.id (clusters.map fun d =>
      clusterIdentity d (chosenID choice.chosen d)
        (tablesAfter db clusters choice [] now).entities now') id with
  | none => exact Or.inl rfl
  | some r =>
      obtain ⟨hmem, hid⟩ := lookup_eq_some hr
      obtain ⟨d, hd, rfl⟩ := List.mem_map.1 hmem
      obtain rfl : chosenID choice.chosen d = id := hid
      obtain ⟨e₁, he₁, hrow⟩ := lookup_chosen_row [] now hdb h.clusterKeys hspec hd
      obtain rfl : e = e₁ := Option.some.inj (he.symm.trans he₁)
      have hfirst : e.firstSeen ≤ now := by
        have hle : ({ e with mergedAt := none } : EntityIdentity).firstSeen ≤ now := by
          rw [hrow]
          exact (le_clusterIdentity_firstSeen.1 (Std.le_refl _)).2.1
        exact hle
      rw [clusterIdentity_again hrow he]
      cases hchanged : identityChanged (tablesAfter db clusters choice [] now).entities
          (clocked d now' e) with
      | false => exact Or.inl (by simp [Option.filter, hchanged])
      | true =>
          refine Or.inr ⟨d, hd, rfl, hfirst, ?_, by simp [Option.filter, hchanged]⟩
          refine clocked_changed ?_ ⟨?_, ?_⟩ hchanged
          · rw [(lookup_eq_some he).2]
            exact he
          · exact congrArg EntityIdentity.mergedInto hrow
          · exact congrArg EntityIdentity.goneAt hrow

/-- No identity is added when the same clusters are reconciled again. -/
theorem no_entity_again (hdb : TablesOk db) (h : Input db clusters [] newIds)
    (hspec : ChoiceSpec db.entities clusters choice) {again : IdentityChoice} (now' : Bytes)
    (hspec' : ChoiceSpec (tablesAfter db clusters choice [] now).entities clusters again)
    (hchosen : ∀ d ∈ clusters, chosenID again.chosen d = chosenID choice.chosen d)
    (hmerged : again.mergedInto = []) {id : Bytes}
    (hnone : lookup EntityIdentity.id (tablesAfter db clusters choice [] now).entities id = none) :
    lookup EntityIdentity.id
      (identityUpdates (tablesAfter db clusters choice [] now) clusters again [] now') id = none := by
  rw [lookup_updates_again hdb h hspec hspec' hchosen hmerged, Option.filter_eq_none_iff]
  intro r hr
  obtain ⟨hmem, hid⟩ := lookup_eq_some hr
  obtain ⟨d, hd, rfl⟩ := List.mem_map.1 hmem
  obtain ⟨e, he, -⟩ := lookup_chosen_row [] now hdb h.clusterKeys hspec hd
  rw [← hid] at hnone
  cases hnone.symm.trans he

/-- **How the identities change when the same clusters are reconciled again.** -/
theorem entities_again (hdb : TablesOk db) (h : Input db clusters [] newIds)
    (hspec : ChoiceSpec db.entities clusters choice) {again : IdentityChoice} {now' : Bytes}
    (hspec' : ChoiceSpec (tablesAfter db clusters choice [] now).entities clusters again)
    (hchosen : ∀ d ∈ clusters, chosenID again.chosen d = chosenID choice.chosen d)
    (hmerged : again.mergedInto = []) :
    List.Forall₂ (fun e e' => e' = e ∨ ∃ d ∈ clusters, chosenID choice.chosen d = e.id ∧
        (now' < e.firstSeen ∨ ∀ m ∈ d, m.observedAt = []) ∧ e' = clocked d now' e)
      (tablesAfter db clusters choice [] now).entities
      (tablesAfter (tablesAfter db clusters choice [] now) clusters again [] now').entities := by
  have hafter : TablesOk (tablesAfter db clusters choice [] now) := hdb.after h hspec
  have hknown : ∀ r ∈ identityUpdates (tablesAfter db clusters choice [] now) clusters again []
      now', (lookup EntityIdentity.id (tablesAfter db clusters choice [] now).entities
        r.id).isSome = true := by
    intro r hr
    cases hnone : lookup EntityIdentity.id (tablesAfter db clusters choice [] now).entities r.id with
    | some e => rfl
    | none =>
        have hno := no_entity_again hdb h hspec now' hspec' hchosen hmerged hnone
        exact absurd rfl (lookup_eq_none.1 hno r hr)
  have hmap := putAll_eq_map identityUpdates_nodup hknown
  rw [show (tablesAfter (tablesAfter db clusters choice [] now) clusters again [] now').entities =
    _ from hmap, List.forall₂_map_right_iff, List.forall₂_same]
  intro e he
  rcases entity_again hdb h hspec now' hspec' hchosen hmerged
    (hafter.ids.lookup_of_mem he) with hnone | ⟨d, hd, hid, -, hclock, hsome⟩
  · rw [hnone]
    exact Or.inl rfl
  · rw [hsome]
    exact Or.inr ⟨d, hd, hid, hclock, rfl⟩

/-- **Nothing changes** when the same clusters are reconciled again, if each has an instant and the
clock does not go back. -/
theorem tables_again (hdb : TablesOk db) (h : Input db clusters [] newIds)
    (hspec : ChoiceSpec db.entities clusters choice) {again : IdentityChoice} {now' : Bytes}
    (hspec' : ChoiceSpec (tablesAfter db clusters choice [] now).entities clusters again)
    (hchosen : ∀ d ∈ clusters, chosenID again.chosen d = chosenID choice.chosen d)
    (hmerged : again.mergedInto = []) (hinstant : ∀ d ∈ clusters, ∃ m ∈ d, m.observedAt ≠ [])
    (hclock : now ≤ now') :
    tablesAfter (tablesAfter db clusters choice [] now) clusters again [] now' =
      tablesAfter db clusters choice [] now := by
  have hupdates : identityUpdates (tablesAfter db clusters choice [] now) clusters again [] now' =
      [] := by
    refine List.eq_nil_iff_forall_not_mem.2 fun r hr => ?_
    have hnone : lookup EntityIdentity.id (identityUpdates (tablesAfter db clusters choice [] now)
        clusters again [] now') r.id = none := by
      cases he : lookup EntityIdentity.id (tablesAfter db clusters choice [] now).entities r.id with
      | none => exact no_entity_again hdb h hspec now' hspec' hchosen hmerged he
      | some e =>
          rcases entity_again hdb h hspec now' hspec' hchosen hmerged he with
            hnone | ⟨d, hd, -, hfirst, hlt | hblank, -⟩
          · exact hnone
          · exact absurd (Std.lt_of_lt_of_le hlt hfirst) (Std.not_lt.2 hclock)
          · obtain ⟨m, hm, hne⟩ := hinstant d hd
            exact absurd (hblank m hm) hne
    exact absurd rfl (lookup_eq_none.1 hnone r hr)
  have hentities : (tablesAfter (tablesAfter db clusters choice [] now) clusters again []
      now').entities = (tablesAfter db clusters choice [] now).entities := by
    change putAll EntityIdentity.id _ _ = _
    rw [hupdates]
    rfl
  calc
    _ = Db.mk (tablesAfter (tablesAfter db clusters choice [] now) clusters again [] now').entities
          (tablesAfter (tablesAfter db clusters choice [] now) clusters again [] now').members := rfl
    _ = _ := by rw [hentities, members_again hdb h hspec hchosen hmerged]

end Again

/-! ### Runs with generated ids -/

/-- No generated id is empty. -/
def Generated (_ : World) : Event → Prop
  | .reconcile _ _ newIds _ => [] ∉ newIds
  | .purge _ => True

/-- The id of a cluster is not empty. -/
theorem chosenID_ne_nil {db : Db} {clusters : List Cluster} {preserve newIds : List Bytes}
    (hdb : TablesOk db) (h : Input db clusters preserve newIds) (hnew : [] ∉ newIds)
    (hnil : lookup EntityIdentity.id db.entities [] = none) {d : Cluster} (hd : d ∈ clusters) :
    chosenID (chooseIdentityIDs clusters newIds db.members db.entities).chosen d ≠ [] := by
  intro heq
  rcases chosenID_new_or_existing hdb h hd with hmem | ⟨e, he, -⟩
  · exact hnew (heq ▸ hmem)
  · rw [heq, hnil] at he
    cases he

/-- No identity has an empty id. -/
theorem nonempty_step {w w' : World} {a : Event}
    (h : TablesOk w.db ∧ lookup EntityIdentity.id w.db.entities [] = none)
    (hstep : (lifecycle.restrict Generated).step w a w') :
    TablesOk w'.db ∧ lookup EntityIdentity.id w'.db.entities [] = none := by
  obtain ⟨hdb, hnil⟩ := h
  obtain ⟨hgenerated, hstep⟩ := hstep
  refine ⟨tablesOk_step hdb hstep, ?_⟩
  cases a with
  | reconcile clusters preserve newIds now =>
      obtain ⟨h, rfl⟩ := hstep
      have hspec := choice_spec hdb h.sorted
      have hunmerged : mergeTarget (chooseIdentityIDs (sortIdentityClusters clusters) newIds
          w.db.members w.db.entities).mergedInto [] = none := by
        rw [Option.eq_none_iff_forall_not_mem]
        intro winner hwinner
        exact (hspec.merged [] winner hwinner).2.1 rfl
      rw [reconcileEntityIdentities_eq hdb h]
      exact (lookup_other hdb h.sorted.clusterKeys hspec hunmerged
        fun d hd => chosenID_ne_nil hdb h.sorted hgenerated hnil hd).trans (by rw [hnil]; rfl)
  | purge cutoff =>
      obtain rfl := hstep
      change lookup EntityIdentity.id (deleteExpiredEntityIdentities w.db cutoff).entities [] = none
      rw [hdb.lookup_purge, hnil]
      rfl

/-! ### Reconciling twice -/

/-- A cluster has a member of an identity. -/
def Owned (db : Db) (c : Cluster) (id : Bytes) : Prop :=
  ∃ m ∈ c, ∃ old ∈ db.members, old.key = m.key ∧ old.entityID = id

/-- An identity that has members in a cluster has none in another one. -/
def Apart (db : Db) (clusters : List Cluster) : Prop :=
  ∀ c ∈ clusters, ∀ d ∈ clusters, ∀ id, Owned db c id → Owned db d id → c = d

/-- A row is the same, except for what the clock sets: the first instant, if the clock text is
smaller, and the last one, if the cluster has no instant. -/
def SameButClock (db : Db) (clusters : List Cluster) (now : Bytes) (e e' : EntityIdentity) : Prop :=
  e' = e ∨ ∃ c ∈ clusters, Owned db c e.id ∧ (now < e.firstSeen ∨ ∀ m ∈ c, m.observedAt = []) ∧
    e' = clocked c now e

/-- The identities that a cluster may claim are those of its members. -/
theorem mem_ownIdentities_iff {db : Db} (hdb : TablesOk db)
    (hnil : lookup EntityIdentity.id db.entities [] = none) {c d : Cluster}
    (hperm : ∀ m, m ∈ d ↔ m ∈ c) {id : Bytes} :
    id ∈ ownIdentities d db.members db.entities ↔ Owned db c id := by
  rw [mem_ownIdentities, candidates, List.mem_dedup, List.mem_filterMap]
  constructor
  · rintro ⟨⟨m, hm, hid⟩, -⟩
    obtain ⟨old, hold, rfl⟩ := Option.map_eq_some_iff.1 hid
    obtain ⟨hmem, hkey⟩ := lookup_eq_some hold
    exact ⟨m, (hperm m).1 hm, old, hmem, hkey, (hdb.resolve hmem).symm⟩
  · rintro ⟨m, hm, old, hmem, hkey, rfl⟩
    refine ⟨⟨m, (hperm m).2 hm, ?_⟩, ?_⟩
    · rw [← hkey, hdb.keys.lookup_of_mem hmem, Option.map_some, hdb.resolve hmem]
    · intro heq
      obtain ⟨e, he, -⟩ := hdb.owner old hmem
      rw [heq, hnil] at he
      cases he

/-- What holds in every state that is reached with generated ids. -/
theorem generated_ok {w : World} (hw : (lifecycle.restrict Generated).Reachable w) :
    TablesOk w.db ∧ lookup EntityIdentity.id w.db.entities [] = none := by
  refine hw.invariant (I := fun w => TablesOk w.db ∧
    lookup EntityIdentity.id w.db.entities [] = none) ?_ fun _ _ _ => nonempty_step
  rintro w rfl
  exact ⟨tablesOk_nil, rfl⟩

/-- **A reconciliation is stable**: when the same clusters are reconciled again, no member changes,
and an identity only as the clock tells, which is not at all if each cluster has an instant and the
clock does not go back.  And if no identity has members in two clusters, each cluster keeps the
oldest of its identities, and the others redirect to that one. -/
theorem reconcile_stable {w : World} (hw : (lifecycle.restrict Generated).Reachable w)
    {clusters : List Cluster} {newIds : List Bytes} {now : Bytes}
    (h : Input w.db clusters [] newIds) (hnew : [] ∉ newIds) :
    let db₁ := reconcileEntityIdentities w.db clusters [] newIds now
    (∀ newIds' now', Input db₁ clusters [] newIds' →
      let db₂ := reconcileEntityIdentities db₁ clusters [] newIds' now'
      db₂.members = db₁.members ∧
      List.Forall₂ (SameButClock db₁ clusters now') db₁.entities db₂.entities ∧
      ((∀ c ∈ clusters, ∃ m ∈ c, m.observedAt ≠ []) → now ≤ now' → db₂ = db₁)) ∧
    (Apart w.db clusters → ∀ c ∈ clusters, (∃ id, Owned w.db c id) →
      ∃ id, Owned w.db c id ∧
        (∀ m ∈ c, ∃ row ∈ db₁.members, row.columns = m.columns ∧ row.entityID = id ∧
          row.goneAt = none) ∧
        (∃ e ∈ db₁.entities, e.id = id ∧ e.Active) ∧
        ∀ loser, Owned w.db c loser → loser ≠ id → older w.db.entities id loser = true ∧
          ∃ e ∈ db₁.entities, e.id = loser ∧ e.mergedInto = some id) := by
  obtain ⟨hdb, hnil⟩ := generated_ok hw
  let sorted := sortIdentityClusters clusters
  let choice := chooseIdentityIDs sorted newIds w.db.members w.db.entities
  have hs : Input w.db sorted [] newIds := h.sorted
  have hspec : ChoiceSpec w.db.entities sorted choice := choice_spec hdb hs
  have hne : ∀ d ∈ sorted, chosenID choice.chosen d ≠ [] :=
    fun d hd => chosenID_ne_nil hdb hs hnew hnil hd
  have hafter : TablesOk (tablesAfter w.db sorted choice [] now) := hdb.after hs hspec
  have hsort : ∀ d ∈ sorted, ∃ c ∈ clusters, (∀ m, m ∈ d ↔ m ∈ c) ∧
      d = c.insertionSort fun a b => ¬ b.key < a.key := by
    intro d hd
    obtain ⟨c, hc, rfl⟩ := List.mem_map.1 ((sortIdentityClusters_perm clusters).mem_iff.1 hd)
    exact ⟨c, hc, fun m => List.mem_insertionSort _, rfl⟩
  rw [reconcileEntityIdentities_eq hdb h]
  refine ⟨?_, ?_⟩
  · intro newIds' now' h'
    have hs' : Input (tablesAfter w.db sorted choice [] now) sorted [] newIds' := h'.sorted
    have hspec' := choice_spec hafter hs'
    obtain ⟨hchosen, hmerged⟩ := choice_again hdb hs hspec hne hs'
    rw [reconcileEntityIdentities_eq hafter h']
    refine ⟨members_again hdb hs hspec hchosen hmerged, ?_, ?_⟩
    · refine (entities_again hdb hs hspec hspec' hchosen hmerged).imp fun e e' hsame => ?_
      rcases hsame with rfl | ⟨d, hd, hid, hclock, rfl⟩
      · exact Or.inl rfl
      · obtain ⟨c, hc, hmem, -⟩ := hsort d hd
        obtain ⟨m, hm⟩ := List.exists_mem_of_ne_nil d (hs.nonempty d hd)
        refine Or.inr ⟨c, hc, ⟨m, (hmem m).1 hm, _, desired_mem_after [] now hdb hs hspec
          (mem_desired.2 ⟨d, hd, m, hm, rfl⟩), rfl, hid⟩, ?_, ?_⟩
        · exact hclock.imp_right fun hblank m hm => hblank m ((hmem m).2 hm)
        · simp only [clocked, hmem]
    · intro hinstant hclock
      refine tables_again hdb hs hspec hspec' hchosen hmerged ?_ hclock
      intro d hd
      obtain ⟨c, hc, hmem, -⟩ := hsort d hd
      obtain ⟨m, hm, hne⟩ := hinstant c hc
      exact ⟨m, (hmem m).2 hm, hne⟩
  · intro hapart c hc ⟨own, hown⟩
    obtain ⟨d, hd, hmem⟩ : ∃ d ∈ sorted, ∀ m, m ∈ d ↔ m ∈ c :=
      ⟨_, (sortIdentityClusters_perm clusters).mem_iff.2 (List.mem_map_of_mem hc),
        fun m => List.mem_insertionSort _⟩
    have hiff : ∀ id, id ∈ ownIdentities d w.db.members w.db.entities ↔ Owned w.db c id :=
      fun id => mem_ownIdentities_iff hdb hnil hmem
    have hapart' : ∀ d ∈ sorted, ∀ d' ∈ sorted,
        ∀ id ∈ ownIdentities d w.db.members w.db.entities,
          id ∈ ownIdentities d' w.db.members w.db.entities → d = d' := by
      intro d hd d' hd' id hid hid'
      obtain ⟨c, hc, hmem, rfl⟩ := hsort d hd
      obtain ⟨c', hc', hmem', rfl⟩ := hsort d' hd'
      rw [hapart c hc c' hc' id ((mem_ownIdentities_iff hdb hnil hmem).1 hid)
        ((mem_ownIdentities_iff hdb hnil hmem').1 hid')]
    cases hids : ownIdentities d w.db.members w.db.entities with
    | nil =>
        rw [← hiff, hids] at hown
        cases hown
    | cons id losers =>
        obtain ⟨hchosen, hmerged⟩ := (apart_choice hs hapart').1 d hd id losers hids
        refine ⟨id, (hiff id).1 (by rw [hids]; exact List.mem_cons_self), ?_, ?_, ?_⟩
        · intro m hm
          obtain ⟨row, hrow, hcolumns, hid, hactive⟩ :=
            desired_after [] now hdb hs hspec hd ((hmem m).2 hm)
          exact ⟨row, hrow, hcolumns, hid.trans hchosen, hactive⟩
        · obtain ⟨e, he, hunmerged, hgone⟩ :=
            lookup_chosen [] now hdb hs.clusterKeys hspec hd
          obtain ⟨hmem, hid⟩ := lookup_eq_some he
          exact ⟨e, hmem, hid.trans hchosen, hunmerged, hgone⟩
        · intro loser hloser hne
          have hmem : loser ∈ losers := by
            rw [← hiff, hids] at hloser
            exact (List.mem_cons.1 hloser).resolve_left hne
          obtain ⟨hmem', hid⟩ := lookup_eq_some
            (lookup_loser hdb hs.clusterKeys hspec (hmerged loser hmem))
          exact ⟨(ownIdentities_oldest hids loser hmem).2, _, hmem', hid, rfl⟩

/-! ### Samples -/

theorem sampleApart_generated :
    (lifecycle.restrict Generated).Reachable (sampleWorld sampleApart) := by
  refine ⟨⟨⟨[], []⟩, []⟩, sampleApart, rfl, .cons (t := sampleWorld sampleApart) ?_ .nil⟩
  refine ⟨show [] ∉ [[10], [11]] by decide, ?_, rfl⟩
  constructor <;> decide

/-- The two machines, seen as one. -/
def sampleOne : List Cluster := [[sampleObservation [1] [7] [4], sampleObservation [2] [7] [5]]]

/-- The two machines turn out to be one. -/
theorem reconcile_stable_sample :
    reconcileEntityIdentities
        (reconcileEntityIdentities (sampleWorld sampleApart).db sampleOne [] [[12]]
          (bytes "2026-01-02T00:00:00Z")) sampleOne [] [[13]] (bytes "2026-01-03T00:00:00Z") =
      reconcileEntityIdentities (sampleWorld sampleApart).db sampleOne [] [[12]]
        (bytes "2026-01-02T00:00:00Z") := by
  have h : Input (sampleWorld sampleApart).db sampleOne [] [[12]] := by
    constructor <;> decide
  refine ((reconcile_stable sampleApart_generated h (by decide)).1 [[13]]
    (bytes "2026-01-03T00:00:00Z") ?_).2.2 (by decide) (by decide)
  constructor <;> decide

/-- An observation without an instant. -/
def sampleBlank : List Cluster := [[⟨[1], [7], [4], bytes "nas", []⟩]]

def sampleBlankDb : Db :=
  reconcileEntityIdentities ⟨[], []⟩ sampleBlank [] [[10]] (bytes "2026-01-01T00:00:00Z")

/-- An observation in the second in which the clock is read. -/
def sampleSecond : List Cluster := [[sampleObservation [1] [7] [4]]]

def sampleSecondDb : Db :=
  reconcileEntityIdentities ⟨[], []⟩ sampleSecond [] [[10]] (bytes "2026-01-01T00:00:00.1Z")

/-- **Where the rows change**: the clock sets the last instant of a cluster without instants, and it
sets the first one where the text of a later clock is smaller, as that of fifteen hundredths of a
second is smaller than that of a tenth. -/
theorem reconcile_changes :
    (Input ⟨[], []⟩ sampleBlank [] [[10]] ∧ Input sampleBlankDb sampleBlank [] [[11]] ∧
      reconcileEntityIdentities sampleBlankDb sampleBlank [] [[11]]
        (bytes "2026-01-02T00:00:00Z") ≠ sampleBlankDb) ∧
    Input ⟨[], []⟩ sampleSecond [] [[10]] ∧ Input sampleSecondDb sampleSecond [] [[11]] ∧
      reconcileEntityIdentities sampleSecondDb sampleSecond [] [[11]]
        (bytes "2026-01-01T00:00:00.15Z") ≠ sampleSecondDb := by
  refine ⟨⟨?_, ?_, ?_⟩, ?_, ?_, ?_⟩
  · constructor <;> decide
  · constructor <;> decide
  · decide
  · constructor <;> decide
  · constructor <;> decide
  · decide

end WiseLabz.Identity
