/-
**What a reconciliation leaves.**

The identity of a cluster is there, neither merged nor gone; a loser redirects to its winner; any
other identity is as it was, except that redirects lead to their final winners and an identity
without active members is gone.  A member of a cluster belongs to the identity of the cluster; any
other member stays with its identity, or goes to the winner with it, and is gone unless its
connector is preserved.

Main definitions:

* `Identity.ActiveMember` — an identity has an active member;
* `Identity.GoneIff` — an identity that is not merged is gone exactly without active members;
* `Identity.Clustered` — the members of each cluster belong to one identity of their own.

Main results:

* `Identity.lookup_loser`, `Identity.lookup_chosen`, `Identity.lookup_other` — the identities after a
  reconciliation;
* `Identity.upsertIdentityMembers_eq`, `Identity.moveMergedIdentityMembers_eq` — **the members after
  it**.
-/

import WiseLabz.Identity.Choice

set_option relaxedAutoImplicit false
set_option autoImplicit false

namespace WiseLabz.Identity

open Lib

/-! ### What is shown -/

/-- An identity has an active member. -/
def ActiveMember (db : Db) (id : Bytes) : Prop :=
  ∃ m ∈ db.members, m.entityID = id ∧ m.goneAt = none

/-- An identity that is not merged is gone exactly when it has no active member. -/
def GoneIff (db : Db) : Prop :=
  ∀ e ∈ db.entities, e.mergedInto = none → (e.goneAt ≠ none ↔ ¬ ActiveMember db e.id)

/-- The members of a cluster are active rows of one identity, and different clusters have different
identities. -/
def Clustered (db : Db) (clusters : List Cluster) : Prop :=
  ∃ identity : Cluster → Bytes, KeyNodup identity clusters ∧
    ∀ c ∈ clusters, ∀ m ∈ c, ∃ row ∈ db.members, row.columns = m.columns ∧
      row.entityID = identity c ∧ row.goneAt = none

/-! ### The identities -/

section Entities

variable {db : Db} {clusters : List Cluster} {choice : IdentityChoice} {preserve : List Bytes}
  {now : Bytes}

/-- The identities that a reconciliation writes. -/
def identityUpdates (db : Db) (clusters : List Cluster) (choice : IdentityChoice)
    (preserve : List Bytes) (now : Bytes) : List EntityIdentity :=
  let diff := buildIdentityDiff clusters choice.chosen db.members db.entities preserve now
  markUnobservedIdentitiesGone db.entities diff.active choice.mergedInto
    (flattenIdentityRedirects db.entities choice.mergedInto diff.updates now) now

/-- The identities with an active member. -/
def activeIdentities (db : Db) (clusters : List Cluster) (choice : IdentityChoice)
    (preserve : List Bytes) (now : Bytes) : List Bytes :=
  (buildIdentityDiff clusters choice.chosen db.members db.entities preserve now).active

/-- The rows of the clusters are of different identities. -/
theorem clusterRows_nodup (hkeys : KeyNodup clusterKey clusters)
    (hspec : ChoiceSpec db.entities clusters choice) :
    KeyNodup EntityIdentity.id
      (clusters.map fun d => clusterIdentity d (chosenID choice.chosen d) db.entities now) := by
  rw [KeyNodup, List.map_map]
  refine List.Nodup.map_on ?_ (List.Nodup.of_map _ hkeys)
  intro d hd d' hd' heq
  exact hkeys.eq_of_key hd hd' (hspec.distinct d hd d' hd' heq)

/-- What the identities of the clusters are written as. -/
theorem lookup_clusterUpdates (hkeys : KeyNodup clusterKey clusters)
    (hspec : ChoiceSpec db.entities clusters choice) (id : Bytes) :
    lookup EntityIdentity.id
        (buildIdentityDiff clusters choice.chosen db.members db.entities preserve now).updates id =
      (lookup EntityIdentity.id
        (clusters.map fun d => clusterIdentity d (chosenID choice.chosen d) db.entities now)
        id).filter (identityChanged db.entities) := by
  refine (lookup_foldl_put _ (fun e => e) (clusterRows_nodup hkeys hspec) (fun _ => rfl) [] id).trans ?_
  simp

/-- The updates of the clusters are of different identities. -/
theorem clusterUpdates_nodup :
    KeyNodup EntityIdentity.id
      (buildIdentityDiff clusters choice.chosen db.members db.entities preserve now).updates :=
  keyNodup_nil.foldl_put _ _ _

theorem flattenIdentityRedirects_nodup {mergedInto : List (Bytes × Bytes)}
    {updates : List EntityIdentity} (h : KeyNodup EntityIdentity.id updates) :
    KeyNodup EntityIdentity.id (flattenIdentityRedirects db.entities mergedInto updates now) :=
  (h.putAll _).foldl_put _ _ _

theorem identityUpdates_nodup :
    KeyNodup EntityIdentity.id (identityUpdates db clusters choice preserve now) :=
  (flattenIdentityRedirects_nodup clusterUpdates_nodup).foldl_put _ _ _

/-- What is written for the losers, and for the redirects. -/
theorem lookup_flattenIdentityRedirects (hdb : TablesOk db) {mergedInto : List (Bytes × Bytes)}
    (hnodup : KeyNodup Prod.fst mergedInto) (updates : List EntityIdentity) (id : Bytes) :
    lookup EntityIdentity.id (flattenIdentityRedirects db.entities mergedInto updates now) id =
      (((lookup EntityIdentity.id db.entities id).filter fun e =>
          e.mergedInto.any fun target =>
            resolveFinalIdentity target db.entities mergedInto ≠ target).map
        (redirected db.entities mergedInto)).or
      (((lookup Prod.fst mergedInto id).map (mergedIdentity db.entities now)).or
      (lookup EntityIdentity.id updates id)) := by
  have hmerged : KeyNodup EntityIdentity.id (mergedInto.map (mergedIdentity db.entities now)) := by
    rw [KeyNodup, List.map_map]
    exact hnodup
  have hlosers : lookup EntityIdentity.id (mergedInto.map (mergedIdentity db.entities now)) id =
      (lookup Prod.fst mergedInto id).map (mergedIdentity db.entities now) :=
    lookup_map (fun _ => rfl) _ id
  rw [flattenIdentityRedirects, ← hlosers, ← lookup_putAll hmerged]
  exact lookup_foldl_put _ (redirected db.entities mergedInto) hdb.ids (fun _ => rfl) _ id

/-- What is written for identities that nothing observes any more. -/
theorem lookup_markUnobservedIdentitiesGone (hdb : TablesOk db) (active : List Bytes)
    (mergedInto : List (Bytes × Bytes)) (updates : List EntityIdentity) (id : Bytes) :
    lookup EntityIdentity.id
        (markUnobservedIdentitiesGone db.entities active mergedInto updates now) id =
      (((lookup EntityIdentity.id db.entities id).filter (isUnobserved active mergedInto)).map
        fun e => { e with goneAt := some now }).or
      (lookup EntityIdentity.id updates id) := by
  rw [markUnobservedIdentitiesGone]
  refine lookup_foldl_put _ (fun e : EntityIdentity => { e with goneAt := some now }) hdb.ids
    (fun _ => ?_) _ id
  rfl

/-- Merges lead to the final winners, and no redirect is followed by another one. -/
theorem resolveFinalIdentity_eq (hspec : ChoiceSpec db.entities clusters choice) {target : Bytes}
    (htarget : Existing db.entities target) :
    resolveFinalIdentity target db.entities choice.mergedInto =
      (mergeTarget choice.mergedInto target).getD target := by
  -- an identity that is neither merged nor redirected is final
  have hfinal : ∀ id fuel seen, Existing db.entities id → mergeTarget choice.mergedInto id = none →
      resolveFinalLoop db.entities choice.mergedInto fuel seen id = id := by
    rintro id fuel seen ⟨e, he, hmerged⟩ hnone
    cases fuel with
    | zero => rfl
    | succ fuel =>
        rw [resolveFinalLoop]
        split
        · rfl
        · rw [hnone, entityOf_eq he, hmerged]
  cases hmerge : mergeTarget choice.mergedInto target with
  | none => exact hfinal target _ [] htarget hmerge
  | some winner =>
      obtain ⟨-, hnonempty, hwinner, d, hd, hchosen⟩ := hspec.merged target winner hmerge
      have hunmerged : mergeTarget choice.mergedInto winner = none :=
        hchosen ▸ (hspec.chosen d hd).2
      rw [resolveFinalIdentity, resolveFinalLoop, if_neg (by simp [hnonempty]), hmerge]
      exact hfinal winner _ _ hwinner hunmerged

/-- **What is written under an id**: the last of what was written. -/
theorem lookup_identityUpdates (hdb : TablesOk db) (hkeys : KeyNodup clusterKey clusters)
    (hspec : ChoiceSpec db.entities clusters choice) (id : Bytes) :
    lookup EntityIdentity.id (identityUpdates db clusters choice preserve now) id =
      (((lookup EntityIdentity.id db.entities id).filter
          (isUnobserved (activeIdentities db clusters choice preserve now) choice.mergedInto)).map
        fun e => { e with goneAt := some now }).or
      ((((lookup EntityIdentity.id db.entities id).filter fun e =>
          e.mergedInto.any fun target =>
            resolveFinalIdentity target db.entities choice.mergedInto ≠ target).map
        (redirected db.entities choice.mergedInto)).or
      (((lookup Prod.fst choice.mergedInto id).map (mergedIdentity db.entities now)).or
      ((lookup EntityIdentity.id
        (clusters.map fun d => clusterIdentity d (chosenID choice.chosen d) db.entities now)
        id).filter (identityChanged db.entities)))) := by
  rw [identityUpdates, lookup_markUnobservedIdentitiesGone hdb,
    lookup_flattenIdentityRedirects hdb hspec.nodup, lookup_clusterUpdates hkeys hspec]
  rfl

/-- The identities after a reconciliation. -/
def entitiesAfter (db : Db) (clusters : List Cluster) (choice : IdentityChoice)
    (preserve : List Bytes) (now : Bytes) : List EntityIdentity :=
  putAll EntityIdentity.id db.entities (identityUpdates db clusters choice preserve now)

/-- **What is stored under an id after a reconciliation**: what was written, or what was there. -/
theorem lookup_entitiesAfter (id : Bytes) :
    lookup EntityIdentity.id (entitiesAfter db clusters choice preserve now) id =
      (lookup EntityIdentity.id (identityUpdates db clusters choice preserve now) id).or
        (lookup EntityIdentity.id db.entities id) := by
  rw [entitiesAfter, lookup_putAll identityUpdates_nodup]

/-- A stored identity that is not merged is in the tables under its id. -/
theorem Existing.lookup {id : Bytes} (h : Existing db.entities id) :
    lookup EntityIdentity.id db.entities id = some (entityOf db.entities id) ∧
      (entityOf db.entities id).mergedInto = none := by
  obtain ⟨e, he, hmerged⟩ := h
  rw [entityOf_eq he]
  exact ⟨he, hmerged⟩

/-- **A loser redirects to its winner.** -/
theorem lookup_loser (hdb : TablesOk db) (hkeys : KeyNodup clusterKey clusters)
    (hspec : ChoiceSpec db.entities clusters choice) {loser winner : Bytes}
    (hmerge : mergeTarget choice.mergedInto loser = some winner) :
    lookup EntityIdentity.id (entitiesAfter db clusters choice preserve now) loser =
      some (mergedIdentity db.entities now (loser, winner)) := by
  obtain ⟨hrow, hmerged⟩ := (hspec.merged loser winner hmerge).1.lookup
  have hpair : lookup Prod.fst choice.mergedInto loser = some (loser, winner) := by
    obtain ⟨x, hx, rfl⟩ := Option.map_eq_some_iff.1 hmerge
    rw [hx, ← (lookup_eq_some hx).2]
  have hid : (entityOf db.entities loser).id = loser := (lookup_eq_some hrow).2
  rw [lookup_entitiesAfter, lookup_identityUpdates hdb hkeys hspec, hrow, hpair]
  simp [Option.filter, isUnobserved, hid, hmerge, hmerged]

/-- A stored row that need not be written is the row of the cluster, except that it keeps the
instant at which it was merged once. -/
theorem eq_of_not_identityChanged {d : Cluster} {id : Bytes} {old : EntityIdentity}
    (hold : lookup EntityIdentity.id db.entities id = some old)
    (hchanged : identityChanged db.entities (clusterIdentity d id db.entities now) = false) :
    { old with mergedAt := none } = clusterIdentity d id db.entities now := by
  have hid : old.id = id := (lookup_eq_some hold).2
  have hrow : lookup EntityIdentity.id db.entities (clusterIdentity d id db.entities now).id =
      some old := hold
  rw [identityChanged, hrow] at hchanged
  simp only [Bool.or_eq_false_iff, decide_eq_false_iff_not, not_not, Option.isSome_eq_false_iff,
    Option.isNone_iff_eq_none] at hchanged
  obtain ⟨⟨⟨⟨⟨hkind, hname⟩, hfirst⟩, hlast⟩, hgone⟩, hmerged⟩ := hchanged
  rw [clusterIdentity, EntityIdentity.mk.injEq]
  exact ⟨hid, hkind, hname, hfirst, hlast, hgone, hmerged, rfl⟩

theorem chosen_active {d : Cluster} (hd : d ∈ clusters) :
    chosenID choice.chosen d ∈ activeIdentities db clusters choice preserve now :=
  List.mem_append_right _ (List.mem_map_of_mem hd)

variable (preserve now) in
/-- **The identity of a cluster** has the row of the cluster, except that a stored one keeps the
instant at which it was merged once. -/
theorem lookup_chosen_row (hdb : TablesOk db) (hkeys : KeyNodup clusterKey clusters)
    (hspec : ChoiceSpec db.entities clusters choice) {d : Cluster} (hd : d ∈ clusters) :
    ∃ e, lookup EntityIdentity.id (entitiesAfter db clusters choice preserve now)
        (chosenID choice.chosen d) = some e ∧
      { e with mergedAt := none } =
        clusterIdentity d (chosenID choice.chosen d) db.entities now := by
  obtain ⟨hstored, hunmerged⟩ := hspec.chosen d hd
  have hactive : chosenID choice.chosen d ∈ activeIdentities db clusters choice preserve now :=
    chosen_active hd
  have hpair : lookup Prod.fst choice.mergedInto (chosenID choice.chosen d) = none :=
    Option.map_eq_none_iff.1 hunmerged
  -- the row of the cluster is among the rows that may be written
  have hrow : lookup EntityIdentity.id
      (clusters.map fun d => clusterIdentity d (chosenID choice.chosen d) db.entities now)
      (chosenID choice.chosen d) =
        some (clusterIdentity d (chosenID choice.chosen d) db.entities now) :=
    (clusterRows_nodup hkeys hspec).lookup_of_mem (List.mem_map.2 ⟨d, hd, rfl⟩)
  rw [lookup_entitiesAfter, lookup_identityUpdates hdb hkeys hspec, hrow, hpair]
  cases hold : lookup EntityIdentity.id db.entities (chosenID choice.chosen d) with
  | none =>
      have hchanged : identityChanged db.entities
          (clusterIdentity d (chosenID choice.chosen d) db.entities now) = true := by
        rw [identityChanged]
        simp only [clusterIdentity, hold]
      exact ⟨clusterIdentity d (chosenID choice.chosen d) db.entities now,
        by simp [Option.filter, hchanged], rfl⟩
  | some old =>
      have hid : old.id = chosenID choice.chosen d := (lookup_eq_some hold).2
      have hmerged : old.mergedInto = none := by
        rcases hstored with hnew | ⟨e, he, hmerged⟩
        · rw [hnew] at hold
          cases hold
        · rw [he] at hold
          rw [← Option.some.inj hold]
          exact hmerged
      cases hchanged : identityChanged db.entities
          (clusterIdentity d (chosenID choice.chosen d) db.entities now) with
      | true =>
          refine ⟨clusterIdentity d (chosenID choice.chosen d) db.entities now, ?_, rfl⟩
          simp [Option.filter, isUnobserved, hid, hactive, hmerged, hchanged]
      | false =>
          refine ⟨old, by simp [Option.filter, isUnobserved, hid, hactive, hmerged, hchanged], ?_⟩
          exact eq_of_not_identityChanged hold hchanged

variable (preserve now) in
/-- **The identity of a cluster is neither merged nor gone.** -/
theorem lookup_chosen (hdb : TablesOk db) (hkeys : KeyNodup clusterKey clusters)
    (hspec : ChoiceSpec db.entities clusters choice) {d : Cluster} (hd : d ∈ clusters) :
    ∃ e, lookup EntityIdentity.id (entitiesAfter db clusters choice preserve now)
        (chosenID choice.chosen d) = some e ∧ e.mergedInto = none ∧ e.goneAt = none := by
  obtain ⟨e, he, hrow⟩ := lookup_chosen_row preserve now hdb hkeys hspec hd
  exact ⟨e, he, congrArg EntityIdentity.mergedInto hrow, congrArg EntityIdentity.goneAt hrow⟩

/-- Another identity, after a reconciliation. -/
def settled (entities : List EntityIdentity) (active : List Bytes) (mergedInto : List (Bytes × Bytes))
    (now : Bytes) (e : EntityIdentity) : EntityIdentity :=
  if isUnobserved active mergedInto e then { e with goneAt := some now }
  else redirected entities mergedInto e

/-- **Any other identity** is gone if nothing observes it, and its redirect leads to the final
winner. -/
theorem lookup_other (hdb : TablesOk db) (hkeys : KeyNodup clusterKey clusters)
    (hspec : ChoiceSpec db.entities clusters choice) {id : Bytes}
    (hunmerged : mergeTarget choice.mergedInto id = none)
    (hother : ∀ d ∈ clusters, chosenID choice.chosen d ≠ id) :
    lookup EntityIdentity.id (entitiesAfter db clusters choice preserve now) id =
      (lookup EntityIdentity.id db.entities id).map
        (settled db.entities (activeIdentities db clusters choice preserve now) choice.mergedInto
          now) := by
  have hpair : lookup Prod.fst choice.mergedInto id = none := Option.map_eq_none_iff.1 hunmerged
  have hrow : lookup EntityIdentity.id
      (clusters.map fun d => clusterIdentity d (chosenID choice.chosen d) db.entities now) id =
        none := by
    rw [lookup_eq_none]
    intro r hr
    obtain ⟨d, hd, rfl⟩ := List.mem_map.1 hr
    exact hother d hd
  rw [lookup_entitiesAfter, lookup_identityUpdates hdb hkeys hspec, hrow, hpair]
  cases hold : lookup EntityIdentity.id db.entities id with
  | none => rfl
  | some old =>
      rw [Option.map_some, settled]
      cases hgone : isUnobserved (activeIdentities db clusters choice preserve now)
          choice.mergedInto old with
      | true => simp [Option.filter, hgone]
      | false =>
          -- a redirect that is final already is kept
          cases hmerged : old.mergedInto with
          | none =>
              have hkept : redirected db.entities choice.mergedInto old = old := by
                rw [redirected, hmerged, Option.map_none, ← hmerged]
              simp [Option.filter, hgone, hmerged, hkept]
          | some target =>
              by_cases hfinal :
                  resolveFinalIdentity target db.entities choice.mergedInto = target
              · have hkept : redirected db.entities choice.mergedInto old = old := by
                  rw [redirected, hmerged, Option.map_some, hfinal, ← hmerged]
                simp [Option.filter, hgone, hmerged, hfinal, hkept]
              · simp [Option.filter, hgone, hmerged, hfinal]

end Entities

/-! ### The members -/

section Members

variable {db : Db} {clusters : List Cluster} {choice : IdentityChoice} {preserve newIds : List Bytes}
  {now : Bytes}

/-- The members of the clusters, as they should be. -/
def desired (clusters : List Cluster) (chosen : List (Bytes × Bytes)) : List StoredIdentityMember :=
  clusters.flatMap fun c => desiredMembers (chosenID chosen c) c

theorem mem_desired {m : StoredIdentityMember} :
    m ∈ desired clusters choice.chosen ↔ ∃ d ∈ clusters, ∃ o ∈ d,
      m = ⟨chosenID choice.chosen d, o.connectorID, o.kind, o.ref, o.name, none⟩ := by
  simp [desired, desiredMembers, eq_comm]

theorem Input.desired_nodup (h : Input db clusters preserve newIds) :
    KeyNodup StoredIdentityMember.key (desired clusters choice.chosen) := by
  have hkeys : (desired clusters choice.chosen).map StoredIdentityMember.key =
      clusters.flatten.map EntityMemberRecord.key := by
    rw [desired, List.map_flatMap, List.map_flatten, List.flatMap_def]
    congr 1
    refine List.map_congr_left fun d _ => ?_
    rw [desiredMembers, List.map_map]
    rfl
  rw [KeyNodup, hkeys]
  exact h.distinct

theorem Input.desired_proper (h : Input db clusters preserve newIds) {m : StoredIdentityMember}
    (hm : m ∈ desired clusters choice.chosen) : m.Proper ∧ m.connectorID ∉ preserve := by
  obtain ⟨d, hd, o, ho, rfl⟩ := mem_desired.1 hm
  have hmem : o ∈ clusters.flatten := List.mem_flatten.2 ⟨d, hd, ho⟩
  exact ⟨h.proper o hmem, h.preserved o hmem⟩

/-- The rows that are marked as gone. -/
def goneMembers (db : Db) (clusters : List Cluster) (choice : IdentityChoice)
    (preserve : List Bytes) : List StoredIdentityMember :=
  db.members.filter fun old => old.connectorID ∉ preserve ∧
    lookup StoredIdentityMember.key (desired clusters choice.chosen) old.key = none ∧
    old.goneAt = none

/-- The row of a member that is known already, once the members of the clusters are written. -/
def settledMember (desired : List StoredIdentityMember) (preserve : List Bytes) (now : Bytes)
    (row : StoredIdentityMember) : StoredIdentityMember :=
  match lookup StoredIdentityMember.key desired row.key with
  | some m => { row with entityID := m.entityID, name := m.name, goneAt := none }
  | none =>
      if row.connectorID ∈ preserve ∨ row.goneAt ≠ none then row else { row with goneAt := some now }

theorem settledMember_key (desired : List StoredIdentityMember) (row : StoredIdentityMember) :
    (settledMember desired preserve now row).key = row.key ∧
      (settledMember desired preserve now row).columns = row.columns := by
  unfold settledMember
  split
  · exact ⟨rfl, rfl⟩
  · split
    · exact ⟨rfl, rfl⟩
    · exact ⟨rfl, rfl⟩

/-- Looking up by the columns is looking up by the key. -/
theorem lookup_columns {rows : List StoredIdentityMember} (hrows : ∀ m ∈ rows, m.Proper)
    {row : StoredIdentityMember} (hrow : row.Proper) :
    lookup StoredIdentityMember.columns rows row.columns =
      lookup StoredIdentityMember.key rows row.key := by
  induction rows with
  | nil => rfl
  | cons m rows ih =>
      rw [lookup_cons, lookup_cons, ih fun m' hm' => hrows m' (List.mem_cons_of_mem _ hm')]
      have hiff := StoredIdentityMember.key_iff (hrows m (List.mem_cons_self ..)) hrow
      simp only [hiff]

/-- The statement marks the rows it was made for. -/
theorem marked_eq (hdb : TablesOk db) {row : StoredIdentityMember} (hrow : row ∈ db.members) :
    (if ((goneMembers db clusters choice preserve).any fun g => g.columns = row.columns) ∧
        row.goneAt = none then { row with goneAt := some now } else row) =
      if row ∈ goneMembers db clusters choice preserve then { row with goneAt := some now }
      else row := by
  refine if_congr ?_ rfl rfl
  rw [List.any_eq_true]
  constructor
  · rintro ⟨⟨g, hg, hcolumns⟩, -⟩
    have hmem : g ∈ db.members := List.mem_of_mem_filter hg
    have hkey : g.key = row.key :=
      (StoredIdentityMember.key_iff (hdb.proper g hmem) (hdb.proper row hrow)).2
        (of_decide_eq_true hcolumns)
    rwa [← hdb.keys.eq_of_key hmem hrow hkey]
  · intro hg
    have hgone := List.of_mem_filter hg
    simp only [decide_eq_true_eq] at hgone
    exact ⟨⟨row, hg, decide_eq_true rfl⟩, hgone.2.2⟩

/-- A member that is as it should be has a row that is as it should be. -/
theorem unchanged_eq (hdb : TablesOk db) {row m : StoredIdentityMember} (hrow : row ∈ db.members)
    (hkey : m.key = row.key) (hchanged : memberChanged db.members m = false) :
    ({ row with entityID := m.entityID, name := m.name, goneAt := none } : StoredIdentityMember) =
      row := by
  rw [memberChanged, hkey, hdb.keys.lookup_of_mem hrow] at hchanged
  obtain ⟨entityID, connectorID, kind, ref, name, goneAt⟩ := row
  simp only [Bool.or_eq_false_iff, decide_eq_false_iff_not, not_not, Option.isSome_eq_false_iff,
    Option.isNone_iff_eq_none] at hchanged
  obtain ⟨⟨rfl, rfl⟩, rfl⟩ := hchanged
  rfl

/-- **The members once those of the clusters are written**: the ones that were known, settled, and
the new ones. -/
theorem upsertIdentityMembers_eq (hdb : TablesOk db) (h : Input db clusters preserve newIds) :
    upsertIdentityMembers
        (markIdentityMembersGone db.members (goneMembers db clusters choice preserve) now)
        db.members (desired clusters choice.chosen) =
      db.members.map (settledMember (desired clusters choice.chosen) preserve now) ++
        (desired clusters choice.chosen).filter fun m =>
          (lookup StoredIdentityMember.key db.members m.key).isNone := by
  have hproper : ∀ m ∈ desired clusters choice.chosen, m.Proper := fun m hm => (h.desired_proper hm).1
  have hcolumns : KeyNodup StoredIdentityMember.columns (desired clusters choice.chosen) := by
    refine List.Nodup.map_on ?_ (List.Nodup.of_map _ h.desired_nodup)
    intro m hm m' hm' heq
    exact h.desired_nodup.eq_of_key hm hm'
      ((StoredIdentityMember.key_iff (hproper m hm) (hproper m' hm')).2 heq)
  rw [upsertIdentityMembers, markIdentityMembersGone, List.map_map]
  congr 1
  · refine List.map_congr_left fun row hrow => ?_
    rw [Function.comp, marked_eq hdb hrow]
    have hmarked : (if row ∈ goneMembers db clusters choice preserve then
        { row with goneAt := some now } else row).columns = row.columns := by
      split <;> rfl
    -- of the rows to update, the one of this member
    rw [hmarked, List.filter_filter, hcolumns.lookup_filter,
      lookup_columns hproper (hdb.proper row hrow), settledMember]
    have hgoneMember : row ∈ goneMembers db clusters choice preserve ↔
        row.connectorID ∉ preserve ∧ lookup StoredIdentityMember.key
          (desired clusters choice.chosen) row.key = none ∧ row.goneAt = none := by
      simp [goneMembers, hrow]
    cases hm : lookup StoredIdentityMember.key (desired clusters choice.chosen) row.key with
    | none =>
        simp only [Option.filter_none, hgoneMember, hm, true_and]
        by_cases hpreserve : row.connectorID ∈ preserve <;> by_cases hgone : row.goneAt = none <;>
          simp [hpreserve, hgone]
    | some m =>
        have hkey : m.key = row.key := (lookup_eq_some hm).2
        have hknown : (lookup StoredIdentityMember.key db.members m.key).isSome = true := by
          rw [hkey, hdb.keys.lookup_of_mem hrow]
          rfl
        cases hchanged : memberChanged db.members m with
        | true => simp [Option.filter, hknown, hchanged, hm, hgoneMember]
        | false =>
            simp [Option.filter, hknown, hchanged, hm, hgoneMember,
              unchanged_eq hdb hrow hkey hchanged]
  · rw [List.filter_filter]
    refine List.filter_congr fun m _ => ?_
    cases hm : lookup StoredIdentityMember.key db.members m.key with
    | none => simp [memberChanged, hm]
    | some old => simp

/-- A member after the merges. -/
def moved (mergedInto : List (Bytes × Bytes)) (m : StoredIdentityMember) : StoredIdentityMember :=
  { m with entityID := (mergeTarget mergedInto m.entityID).getD m.entityID }

/-- **The members after the merges**: no winner has a member already that a loser has, and no winner
is a loser. -/
theorem moveMergedIdentityMembers_eq {mergedInto : List (Bytes × Bytes)}
    {members : List StoredIdentityMember} (hcolumns : KeyNodup StoredIdentityMember.columns members)
    (hnodup : KeyNodup Prod.fst mergedInto)
    (hwinners : ∀ x ∈ mergedInto, mergeTarget mergedInto x.2 = none) :
    moveMergedIdentityMembers mergedInto members = members.map (moved mergedInto) := by
  induction mergedInto generalizing members with
  | nil =>
      have hmoved : moved [] = fun m => m := rfl
      rw [hmoved, List.map_id']
      rfl
  | cons p mergedInto ih =>
      obtain ⟨hp, hnodup⟩ := List.nodup_cons.1
        (show (p.1 :: mergedInto.map Prod.fst).Nodup from hnodup)
      have htarget : ∀ id, mergeTarget (p :: mergedInto) id =
          if p.1 = id then some p.2 else mergeTarget mergedInto id := by
        intro id
        rw [mergeTarget, lookup_cons]
        split
        · rfl
        · rfl
      have hwinner : p.1 ≠ p.2 ∧ mergeTarget mergedInto p.2 = none := by
        have hnone := hwinners p (List.mem_cons_self ..)
        rw [htarget] at hnone
        split at hnone
        · cases hnone
        · next hne => exact ⟨hne, hnone⟩
      -- nothing is deleted, for the winner has no row of the same member
      have hkept : (members.filter fun m => ¬ (m.entityID = p.1 ∧
          members.any fun w => w.entityID = p.2 ∧ w.columns = m.columns)) = members := by
        rw [List.filter_eq_self]
        intro m hm
        rw [decide_eq_true_eq]
        rintro ⟨hloser, hany⟩
        obtain ⟨w, hw, hsame⟩ := List.any_eq_true.1 hany
        obtain ⟨hwinner', hcol⟩ := of_decide_eq_true hsame
        obtain rfl := hcolumns.eq_of_key hw hm hcol
        exact hwinner.1 (hloser.symm.trans hwinner')
      have hrest : ∀ x ∈ mergedInto, mergeTarget mergedInto x.2 = none := by
        intro x hx
        have hnone := hwinners x (List.mem_cons_of_mem _ hx)
        rw [htarget] at hnone
        split at hnone
        · cases hnone
        · exact hnone
      have hmap : KeyNodup StoredIdentityMember.columns (members.map fun m =>
          if m.entityID = p.1 then { m with entityID := p.2 } else m) := by
        refine hcolumns.map fun m => ?_
        split
        · rfl
        · rfl
      rw [moveMergedIdentityMembers, List.foldl_cons, hkept, ← moveMergedIdentityMembers,
        ih hmap hnodup hrest, List.map_map]
      refine List.map_congr_left fun m _ => ?_
      rw [Function.comp, moved, moved, htarget]
      by_cases hloser : m.entityID = p.1
      · simp [hloser, hwinner.2]
      · simp [hloser, Ne.symm hloser]

theorem ChoiceSpec.winners (h : ChoiceSpec db.entities clusters choice) :
    ∀ x ∈ choice.mergedInto, mergeTarget choice.mergedInto x.2 = none := by
  intro x hx
  have hmerge : mergeTarget choice.mergedInto x.1 = some x.2 := by
    rw [mergeTarget, h.nodup.lookup_of_mem hx]
    rfl
  obtain ⟨-, -, -, d, hd, hchosen⟩ := h.merged x.1 x.2 hmerge
  exact hchosen ▸ (h.chosen d hd).2

/-- The members of a cluster and the members that were known, once those of the clusters are
written. -/
def membersSettled (db : Db) (clusters : List Cluster) (choice : IdentityChoice)
    (preserve : List Bytes) (now : Bytes) : List StoredIdentityMember :=
  db.members.map (settledMember (desired clusters choice.chosen) preserve now) ++
    (desired clusters choice.chosen).filter fun m =>
      (lookup StoredIdentityMember.key db.members m.key).isNone

theorem membersSettled_proper (hdb : TablesOk db) (h : Input db clusters preserve newIds)
    {row : StoredIdentityMember} (hrow : row ∈ membersSettled db clusters choice preserve now) :
    row.Proper := by
  rcases List.mem_append.1 hrow with hrow | hrow
  · obtain ⟨old, hold, rfl⟩ := List.mem_map.1 hrow
    have hcolumns : (settledMember (desired clusters choice.chosen) preserve now old).columns =
        old.columns := (settledMember_key _ old).2
    obtain ⟨hconnector, hrest⟩ := Prod.mk.inj hcolumns
    obtain ⟨hkind, -⟩ := Prod.mk.inj hrest
    obtain ⟨hc, hk⟩ := hdb.proper old hold
    exact ⟨hconnector ▸ hc, hkind ▸ hk⟩
  · exact (h.desired_proper (List.mem_of_mem_filter hrow)).1

theorem membersSettled_nodup (hdb : TablesOk db) (h : Input db clusters preserve newIds) :
    KeyNodup StoredIdentityMember.key (membersSettled db clusters choice preserve now) := by
  rw [KeyNodup, membersSettled, List.map_append, List.nodup_append]
  refine ⟨hdb.keys.map fun m => (settledMember_key _ m).1, h.desired_nodup.filter _, ?_⟩
  intro k hk k' hk' heq
  rw [List.map_map] at hk
  obtain ⟨old, hold, rfl⟩ := List.mem_map.1 hk
  obtain ⟨m, hm, rfl⟩ := List.mem_map.1 hk'
  have hnew := List.of_mem_filter hm
  rw [← heq, Function.comp, (settledMember_key _ old).1, hdb.keys.lookup_of_mem hold] at hnew
  cases hnew

end Members

end WiseLabz.Identity
