/-
**The clusters of observations.**

Observations belong together when they share a strong feature, an external id of one kind or a host
name, that two connectors report.  A detach override takes an observation out of this, and a merge
override joins two whatever their features are.  The clusters are the classes of what this
generates, and neither the order of the rows nor that in which the maps are visited shows in them.

Main definitions:

* `Identity.ObservedMember`, `Identity.EntityIdentityOverride` — observations and overrides;
* `Identity.strongIdentityFeatures` — the features of an observation;
* `Identity.identityClusters` — **the clusters**, by joining roots;
* `Identity.SharesFeature`, `Identity.Matched` — what belongs together at once;
* `Identity.IsClustering` — the classes of a relation, in the order of their keys.

Main results:

* `Identity.featureJoins_connect` — the joins of a feature connect all its holders;
* `Identity.IsClustering.unique` — there is one such list of classes;
* `Identity.identityClusters_classes` — **the clusters are the classes**.
-/

import WiseLabz.Lib.Grouped
import WiseLabz.Lib.UnionFind
import WiseLabz.Identity.Store
import Mathlib.Data.List.Pairwise

set_option relaxedAutoImplicit false
set_option autoImplicit false

namespace WiseLabz.Identity

open Lib

/-! ### Observations and overrides -/

/-- An observation with what it may be matched by. -/
structure ObservedMember extends EntityMemberRecord where
  externalID : Bytes
  hostname : Bytes
  aliases : List Bytes
  deriving DecidableEq, Repr

def ObservedMember.key (m : ObservedMember) : Bytes := m.toEntityMemberRecord.key

inductive OverrideAction
  | merge
  | detach
  deriving DecidableEq, Repr

/-- A manual override; one that detaches names one member. -/
structure EntityIdentityOverride where
  action : OverrideAction
  connectorID : Bytes
  kind : Bytes
  ref : Bytes
  otherConnectorID : Bytes
  otherKind : Bytes
  otherRef : Bytes
  deriving DecidableEq, Repr

def EntityIdentityOverride.key (o : EntityIdentityOverride) : Bytes :=
  identityMemberKey o.connectorID o.kind o.ref

def EntityIdentityOverride.otherKey (o : EntityIdentityOverride) : Bytes :=
  identityMemberKey o.otherConnectorID o.otherKind o.otherRef

/-- `detached[key]` -/
def isDetached (overrides : List EntityIdentityOverride) (m : ObservedMember) : Bool :=
  overrides.any fun o => o.action = .detach ∧ o.key = m.key

/-- The features of an observation; `toLower` is the lower-case form of a name. -/
def strongIdentityFeatures (toLower : Bytes → Bytes) (e : ObservedMember) : List Bytes :=
  (if e.externalID ≠ [] then [bytes "id" ++ 0 :: (e.kind ++ 0 :: e.externalID)] else []) ++
    ((if e.hostname ≠ [] then [bytes "host" ++ 0 :: toLower e.hostname] else []) ++
      (e.aliases.filter (· ≠ [])).map fun name => bytes "host" ++ 0 :: toLower name)

/-! ### Joining -/

section Joining

variable (toLower : Bytes → Bytes) (members : List ObservedMember)
  (overrides : List EntityIdentityOverride)

/-- What is appended to the map of the features: each member that is not detached, under each of its
features. -/
def featureEntries : List (Bytes × Fin members.length) :=
  (List.finRange members.length).flatMap fun i =>
    if isDetached overrides members[i] then []
    else (strongIdentityFeatures toLower members[i]).map fun key => (key, i)

variable {members}

/-- The joins for one feature: the members of the connector that came first with the first one of
the second, and the members of all others with the first one of the first. -/
def featureJoins (indices : List (Fin members.length)) :
    List (Fin members.length × Fin members.length) :=
  match group (indices.map fun i => (members[i].connectorID, i)) with
  | (_, first :: primary) :: (id, other :: others) :: rest =>
      ((first :: primary).map fun i => (i, other)) ++
        ((id, other :: others) :: rest).flatMap fun g => g.2.map fun i => (i, first)
  | _ => []

variable (members)

/-- `index[key]`, the last member with the key. -/
def memberIndex (key : Bytes) : Option (Fin members.length) :=
  (List.finRange members.length).reverse.find? fun i => members[i].key = key

/-- The joins for the merge overrides. -/
def mergeJoins : List (Fin members.length × Fin members.length) :=
  overrides.filterMap fun o =>
    match o.action, memberIndex members o.key, memberIndex members o.otherKey with
    | .merge, some a, some b => some (a, b)
    | _, _, _ => none

/-- The joins, in the order in which the map of the features is visited. -/
def memberJoins (order : MapOrder (Bytes × List (Fin members.length))) :
    List (Fin members.length × Fin members.length) :=
  ((order.visit (group (featureEntries toLower members overrides))).flatMap fun e =>
    featureJoins e.2) ++ mergeJoins members overrides

variable {members}

/-- One round of the loop that collects the members under their roots. -/
def groupMember (s : LinkForest (Fin members.length) × List (Fin members.length × List ObservedMember))
    (i : Fin members.length) :
    LinkForest (Fin members.length) × List (Fin members.length × List ObservedMember) :=
  let (forest, root) := s.1.find i
  (forest, push s.2 root members[i])

end Joining

/-- The key of the first member. -/
def headKey : List ObservedMember → Bytes
  | [] => []
  | m :: _ => m.key

/-- **The clusters**, each sorted by key, in the order of their first keys.  Keys are distinct, so it
does not matter which sort it is. -/
def identityClusters (toLower : Bytes → Bytes) (members : List ObservedMember)
    (overrides : List EntityIdentityOverride)
    (features : MapOrder (Bytes × List (Fin members.length)))
    (groups : MapOrder (Fin members.length × List ObservedMember)) : List (List ObservedMember) :=
  let forest := (LinkForest.singletons _).joinAll (memberJoins toLower members overrides features)
  let grouped := ((List.finRange members.length).foldl groupMember (forest, [])).2
  ((groups.visit grouped).map fun g =>
    g.2.insertionSort fun a b => a.key ≤ b.key).insertionSort fun c d => headKey c ≤ headKey d

/-! ### What belongs together -/

/-- Two of the observations share a feature, and two connectors report it. -/
def SharesFeature (toLower : Bytes → Bytes) (members : List ObservedMember)
    (a b : ObservedMember) : Prop :=
  a ∈ members ∧ b ∈ members ∧ ∃ feature, feature ∈ strongIdentityFeatures toLower a ∧
    feature ∈ strongIdentityFeatures toLower b ∧
    ∃ c ∈ members, ∃ d ∈ members, feature ∈ strongIdentityFeatures toLower c ∧
      feature ∈ strongIdentityFeatures toLower d ∧ c.connectorID ≠ d.connectorID

/-- An override merges the two. -/
def MergedBy (overrides : List EntityIdentityOverride) (members : List ObservedMember)
    (a b : ObservedMember) : Prop :=
  a ∈ members ∧ b ∈ members ∧ ∃ o ∈ overrides, o.action = .merge ∧ o.key = a.key ∧ o.otherKey = b.key

/-- **What belongs together at once.** -/
def Matched (toLower : Bytes → Bytes) (members : List ObservedMember)
    (overrides : List EntityIdentityOverride) (a b : ObservedMember) : Prop :=
  SharesFeature toLower (members.filter fun m => !isDetached overrides m) a b ∨
    MergedBy overrides members a b

/-- **The classes** of the least equivalence that contains the relation, each sorted by key, in the
order of their first keys. -/
structure IsClustering (r : ObservedMember → ObservedMember → Prop) (members : List ObservedMember)
    (clusters : List (List ObservedMember)) : Prop where
  perm : clusters.flatten.Perm members
  nonempty : [] ∉ clusters
  classes : ∀ a ∈ members, ∀ b ∈ members,
    (∃ c ∈ clusters, a ∈ c ∧ b ∈ c) ↔ Relation.EqvGen r a b
  sorted : ∀ c ∈ clusters, c.Pairwise fun a b => a.key ≤ b.key
  ordered : clusters.Pairwise fun c d => headKey c ≤ headKey d

/-! ### The joins of a feature -/

section FeatureJoins

variable {members : List ObservedMember} {indices : List (Fin members.length)}

/-- An entry of the map of the connectors. -/
theorem connectorEntry {id : Bytes} {vs : List (Fin members.length)}
    (h : (id, vs) ∈ group (indices.map fun i => (members[i].connectorID, i))) :
    vs ≠ [] ∧ ∀ i ∈ vs, i ∈ indices ∧ members[i].connectorID = id := by
  refine ⟨(mem_group.1 h).2, ?_⟩
  intro i hi
  obtain ⟨j, hj, hji⟩ := List.mem_map.1 (mem_of_mem_group h hi)
  obtain ⟨hid, rfl⟩ := Prod.mk.inj hji
  exact ⟨hj, hid⟩

/-- The joins of a feature are empty when one connector reports it; else they join every member to
the first one, or to one that is. -/
theorem featureJoins_cases (indices : List (Fin members.length)) :
    (featureJoins indices = [] ∧
      ∀ i ∈ indices, ∀ j ∈ indices, members[i].connectorID = members[j].connectorID) ∨
    ∃ first ∈ indices, ∃ other ∈ indices, members[first].connectorID ≠ members[other].connectorID ∧
      (other, first) ∈ featureJoins indices ∧
      (∀ i ∈ indices, (i, other) ∈ featureJoins indices ∨ (i, first) ∈ featureJoins indices) ∧
      ∀ i j, (i, j) ∈ featureJoins indices → i ∈ indices ∧ j ∈ indices := by
  have hone := keyNodup_group (indices.map fun i => (members[i].connectorID, i))
  have hall : ∀ i ∈ indices, ∃ vs,
      (members[i].connectorID, vs) ∈ group (indices.map fun i => (members[i].connectorID, i)) ∧
        i ∈ vs := fun i hi => exists_mem_group (List.mem_map.2 ⟨i, hi, rfl⟩)
  have hentry : ∀ id vs,
      (id, vs) ∈ group (indices.map fun i => (members[i].connectorID, i)) →
        vs ≠ [] ∧ ∀ i ∈ vs, i ∈ indices ∧ members[i].connectorID = id :=
    fun id vs h => connectorEntry h
  match hg : group (indices.map fun i => (members[i].connectorID, i)) with
  | [] =>
      refine Or.inl ⟨by rw [featureJoins, hg], ?_⟩
      intro i hi
      obtain ⟨vs, hvs, -⟩ := hall i hi
      rw [hg] at hvs
      exact absurd hvs List.not_mem_nil
  | [(id, vs)] =>
      refine Or.inl ⟨by rw [featureJoins, hg]; cases vs <;> rfl, ?_⟩
      have hid : ∀ i ∈ indices, members[i].connectorID = id := by
        intro i hi
        obtain ⟨us, hus, -⟩ := hall i hi
        rw [hg, List.mem_singleton] at hus
        exact (Prod.mk.inj hus).1
      intro i hi j hj
      rw [hid i hi, hid j hj]
  | (_, []) :: _ =>
      rw [hg] at hentry
      exact ((hentry _ _ List.mem_cons_self).1 rfl).elim
  | _ :: (_, []) :: _ =>
      rw [hg] at hentry
      exact ((hentry _ _ (List.mem_cons_of_mem _ List.mem_cons_self)).1 rfl).elim
  | (id, first :: primary) :: (id', other :: others) :: rest =>
      rw [hg] at hone hentry hall
      have hjoins : featureJoins indices = ((first :: primary).map fun i => (i, other)) ++
          ((id', other :: others) :: rest).flatMap fun g => g.2.map fun i => (i, first) := by
        rw [featureJoins, hg]
      rw [hjoins]
      have hfirst := hentry id (first :: primary) List.mem_cons_self
      have hother := hentry id' (other :: others) (List.mem_cons_of_mem _ List.mem_cons_self)
      refine Or.inr ⟨first, (hfirst.2 first List.mem_cons_self).1, other,
        (hother.2 other List.mem_cons_self).1, ?_, ?_, ?_, ?_⟩
      · rw [(hfirst.2 first List.mem_cons_self).2, (hother.2 other List.mem_cons_self).2]
        rintro rfl
        exact (List.nodup_cons.1 hone).1 (by simp)
      · simp
      · intro i hi
        obtain ⟨vs, hvs, hivs⟩ := hall i hi
        rcases List.mem_cons.1 hvs with heq | hvs
        · obtain ⟨-, rfl⟩ := Prod.mk.inj heq
          exact Or.inl (List.mem_append_left _ (List.mem_map.2 ⟨i, hivs, rfl⟩))
        · exact Or.inr (List.mem_append_right _
            (List.mem_flatMap.2 ⟨_, hvs, List.mem_map.2 ⟨i, hivs, rfl⟩⟩))
      · intro i j hij
        rcases List.mem_append.1 hij with hij | hij
        · obtain ⟨k, hk, heq⟩ := List.mem_map.1 hij
          obtain ⟨rfl, rfl⟩ := Prod.mk.inj heq
          exact ⟨(hfirst.2 k hk).1, (hother.2 other List.mem_cons_self).1⟩
        · obtain ⟨g, hg', hij⟩ := List.mem_flatMap.1 hij
          obtain ⟨k, hk, heq⟩ := List.mem_map.1 hij
          obtain ⟨rfl, rfl⟩ := Prod.mk.inj heq
          exact ⟨((hentry g.1 g.2 (List.mem_cons_of_mem _ hg')).2 k hk).1,
            (hfirst.2 first List.mem_cons_self).1⟩

/-- **The joins of a feature connect all its holders**, if two connectors report it. -/
theorem featureJoins_connect {c d : Fin members.length} (hc : c ∈ indices) (hd : d ∈ indices)
    (hcd : members[c].connectorID ≠ members[d].connectorID) {i j : Fin members.length}
    (hi : i ∈ indices) (hj : j ∈ indices) :
    Relation.EqvGen (fun a b => (a, b) ∈ featureJoins indices) i j := by
  rcases featureJoins_cases indices with ⟨-, hsame⟩ |
    ⟨first, -, other, -, -, hjoin, hall, -⟩
  · exact (hcd (hsame c hc d hd)).elim
  · have hfirst : ∀ k ∈ indices,
        Relation.EqvGen (fun a b => (a, b) ∈ featureJoins indices) k first := by
      intro k hk
      rcases hall k hk with h | h
      · exact .trans _ _ _ (.rel _ _ h) (.rel _ _ hjoin)
      · exact .rel _ _ h
    exact .trans _ _ _ (hfirst i hi) (.symm _ _ (hfirst j hj))

/-- Only holders are joined, and only if two connectors report the feature. -/
theorem mem_featureJoins {i j : Fin members.length} (h : (i, j) ∈ featureJoins indices) :
    i ∈ indices ∧ j ∈ indices ∧
      ∃ c ∈ indices, ∃ d ∈ indices, members[c].connectorID ≠ members[d].connectorID := by
  rcases featureJoins_cases indices with ⟨hnil, -⟩ |
    ⟨first, hfirst, other, hother, hne, -, -, hmem⟩
  · rw [hnil] at h
    exact absurd h List.not_mem_nil
  · exact ⟨(hmem i j h).1, (hmem i j h).2, first, hfirst, other, hother, hne⟩

end FeatureJoins

/-! ### All joins -/

section MemberJoins

variable {toLower : Bytes → Bytes} {members : List ObservedMember}
  {overrides : List EntityIdentityOverride}

theorem mem_featureEntries {feature : Bytes} {i : Fin members.length} :
    (feature, i) ∈ featureEntries toLower members overrides ↔
      members[i] ∈ members.filter (fun m => !isDetached overrides m) ∧
        feature ∈ strongIdentityFeatures toLower members[i] := by
  rw [featureEntries, List.mem_flatMap]
  constructor
  · rintro ⟨j, -, hj⟩
    split at hj
    · exact absurd hj List.not_mem_nil
    · next hdetached =>
        obtain ⟨key, hkey, heq⟩ := List.mem_map.1 hj
        obtain ⟨rfl, rfl⟩ := Prod.mk.inj heq
        exact ⟨List.mem_filter.2 ⟨List.getElem_mem _, by simpa using hdetached⟩, hkey⟩
  · rintro ⟨hmem, hfeature⟩
    obtain ⟨-, hdetached⟩ := List.mem_filter.1 hmem
    refine ⟨i, List.mem_finRange i, ?_⟩
    rw [if_neg (by simpa using hdetached)]
    exact List.mem_map.2 ⟨feature, hfeature, rfl⟩

theorem exists_index {m : ObservedMember} (h : m ∈ members) : ∃ i : Fin members.length,
    members[i] = m := by
  obtain ⟨i, hi, rfl⟩ := List.mem_iff_getElem.1 h
  exact ⟨⟨i, hi⟩, rfl⟩

/-- Keys tell the members. -/
theorem index_inj (h : KeyNodup ObservedMember.key members) {i j : Fin members.length}
    (hij : members[i].key = members[j].key) : i = j := by
  have hm : members[i] = members[j] := h.eq_of_key (List.getElem_mem _) (List.getElem_mem _) hij
  exact Fin.ext ((List.Nodup.getElem_inj_iff (List.Nodup.of_map _ h)).1 hm)

theorem memberIndex_eq_some (h : KeyNodup ObservedMember.key members) {key : Bytes}
    {i : Fin members.length} : memberIndex members key = some i ↔ members[i].key = key := by
  rw [memberIndex]
  constructor
  · intro hfind
    simpa using List.find?_some hfind
  · intro hkey
    cases hfind : (List.finRange members.length).reverse.find? fun i => members[i].key = key with
    | none =>
        have hnone := List.find?_eq_none.1 hfind i (List.mem_reverse.2 (List.mem_finRange i))
        exact (hnone (by simpa using hkey)).elim
    | some j =>
        have hj : members[j].key = key := by simpa using List.find?_some hfind
        rw [index_inj h (hj.trans hkey.symm)]

theorem mem_mergeJoins (h : KeyNodup ObservedMember.key members) {i j : Fin members.length} :
    (i, j) ∈ mergeJoins members overrides ↔ MergedBy overrides members members[i] members[j] := by
  rw [mergeJoins, List.mem_filterMap]
  constructor
  · rintro ⟨o, ho, hjoin⟩
    split at hjoin
    · next a b haction ha hb =>
        obtain ⟨rfl, rfl⟩ := Prod.mk.inj (Option.some.inj hjoin)
        exact ⟨List.getElem_mem _, List.getElem_mem _, o, ho, haction,
          ((memberIndex_eq_some h).1 ha).symm, ((memberIndex_eq_some h).1 hb).symm⟩
    · cases hjoin
  · rintro ⟨-, -, o, ho, haction, hkey, hother⟩
    refine ⟨o, ho, ?_⟩
    rw [haction, (memberIndex_eq_some h).2 hkey.symm, (memberIndex_eq_some h).2 hother.symm]

/-- What is joined belongs together. -/
theorem matched_of_mem_memberJoins (h : KeyNodup ObservedMember.key members)
    {order : MapOrder (Bytes × List (Fin members.length))} {i j : Fin members.length}
    (hij : (i, j) ∈ memberJoins toLower members overrides order) :
    Matched toLower members overrides members[i] members[j] := by
  rcases List.mem_append.1 hij with hij | hij
  · obtain ⟨⟨feature, indices⟩, hentry, hij⟩ := List.mem_flatMap.1 hij
    have hgroup := (order.perm _).mem_iff.1 hentry
    obtain ⟨hi, hj, c, hc, d, hd, hcd⟩ := mem_featureJoins hij
    have hmem : ∀ k ∈ indices, members[k] ∈ members.filter (fun m => !isDetached overrides m) ∧
        feature ∈ strongIdentityFeatures toLower members[k] :=
      fun k hk => mem_featureEntries.1 (mem_of_mem_group hgroup hk)
    exact Or.inl ⟨(hmem i hi).1, (hmem j hj).1, feature, (hmem i hi).2, (hmem j hj).2,
      _, (hmem c hc).1, _, (hmem d hd).1, (hmem c hc).2, (hmem d hd).2, hcd⟩
  · exact Or.inr ((mem_mergeJoins h).1 hij)

/-- What belongs together is connected by joins. -/
theorem memberJoins_connect (h : KeyNodup ObservedMember.key members)
    (order : MapOrder (Bytes × List (Fin members.length))) {i j : Fin members.length}
    (hij : Matched toLower members overrides members[i] members[j]) :
    Relation.EqvGen (fun a b => (a, b) ∈ memberJoins toLower members overrides order) i j := by
  rcases hij with ⟨hi, hj, feature, hfi, hfj, c, hc, d, hd, hfc, hfd, hcd⟩ | hmerge
  · obtain ⟨c, rfl⟩ := exists_index (List.mem_filter.1 hc).1
    obtain ⟨d, rfl⟩ := exists_index (List.mem_filter.1 hd).1
    obtain ⟨indices, hgroup, hi⟩ := exists_mem_group (mem_featureEntries.2 ⟨hi, hfi⟩)
    have hmem : ∀ {k}, (feature, k) ∈ featureEntries toLower members overrides → k ∈ indices := by
      intro k hk
      rw [(mem_group.1 hgroup).1]
      exact mem_valuesOf.2 hk
    have hconnect := featureJoins_connect (hmem (mem_featureEntries.2 ⟨hc, hfc⟩))
      (hmem (mem_featureEntries.2 ⟨hd, hfd⟩)) hcd hi (hmem (mem_featureEntries.2 ⟨hj, hfj⟩))
    refine hconnect.mono ?_
    intro a b hab
    exact List.mem_append_left _
      (List.mem_flatMap.2 ⟨_, (order.perm _).mem_iff.2 hgroup, hab⟩)
  · exact .rel _ _ (List.mem_append_right _ ((mem_mergeJoins h).2 hmerge))

/-- **The joins generate what the matches generate.** -/
theorem eqvGen_memberJoins (h : KeyNodup ObservedMember.key members)
    (order : MapOrder (Bytes × List (Fin members.length))) (i j : Fin members.length) :
    Relation.EqvGen (fun a b => (a, b) ∈ memberJoins toLower members overrides order) i j ↔
      Relation.EqvGen (Matched toLower members overrides) members[i] members[j] := by
  constructor
  · intro hij
    induction hij with
    | rel a b hab => exact .rel _ _ (matched_of_mem_memberJoins h hab)
    | refl a => exact .refl _
    | symm a b _ ih => exact .symm _ _ ih
    | trans a b c _ _ ih ih' => exact .trans _ _ _ ih ih'
  · intro hij
    -- a chain of matches stays among the members
    have hchain : ∀ a b, Relation.EqvGen (Matched toLower members overrides) a b →
        a = b ∨ ∃ i j : Fin members.length, members[i] = a ∧ members[j] = b ∧
          Relation.EqvGen (fun a b => (a, b) ∈ memberJoins toLower members overrides order) i j := by
      intro a b hab
      induction hab with
      | rel a b hab =>
          have hmem : a ∈ members ∧ b ∈ members := by
            rcases hab with ⟨ha, hb, -⟩ | ⟨ha, hb, -⟩
            · exact ⟨(List.mem_filter.1 ha).1, (List.mem_filter.1 hb).1⟩
            · exact ⟨ha, hb⟩
          obtain ⟨i, rfl⟩ := exists_index hmem.1
          obtain ⟨j, rfl⟩ := exists_index hmem.2
          exact Or.inr ⟨i, j, rfl, rfl, memberJoins_connect h order hab⟩
      | refl a => exact Or.inl rfl
      | symm a b _ ih =>
          rcases ih with rfl | ⟨i, j, hi, hj, hij⟩
          · exact Or.inl rfl
          · exact Or.inr ⟨j, i, hj, hi, .symm _ _ hij⟩
      | trans a b c _ _ ih ih' =>
          rcases ih with rfl | ⟨i, j, hi, hj, hij⟩
          · exact ih'
          · rcases ih' with rfl | ⟨j', k, hj', hk, hjk⟩
            · exact Or.inr ⟨i, j, hi, hj, hij⟩
            · obtain rfl : j = j' := index_inj h (by rw [hj, hj'])
              exact Or.inr ⟨i, k, hi, hk, .trans _ _ _ hij hjk⟩
    rcases hchain _ _ hij with heq | ⟨i', j', hi, hj, hij'⟩
    · rw [index_inj h (congrArg ObservedMember.key heq)]
      exact .refl _
    · obtain rfl := index_inj h (congrArg ObservedMember.key hi)
      obtain rfl := index_inj h (congrArg ObservedMember.key hj)
      exact hij'

end MemberJoins

/-! ### One list of classes -/

section Unique

variable {r r' : ObservedMember → ObservedMember → Prop} {members members' : List ObservedMember}
  {clusters clusters' : List (List ObservedMember)}

theorem IsClustering.nodup (hc : IsClustering r members clusters)
    (h : KeyNodup ObservedMember.key members) : clusters.flatten.Nodup :=
  hc.perm.nodup_iff.2 (List.Nodup.of_map _ h)

theorem IsClustering.mem (hc : IsClustering r members clusters) {c : List ObservedMember}
    (hmem : c ∈ clusters) {a : ObservedMember} (ha : a ∈ c) : a ∈ members :=
  hc.perm.mem_iff.1 (List.mem_flatten.2 ⟨c, hmem, ha⟩)

/-- Clusters with a common member are one. -/
theorem IsClustering.eq_of_mem (hc : IsClustering r members clusters)
    (h : KeyNodup ObservedMember.key members) {c d : List ObservedMember} (hcm : c ∈ clusters)
    (hdm : d ∈ clusters) {a : ObservedMember} (ha : a ∈ c) (ha' : a ∈ d) : c = d := by
  by_contra hne
  have hdisjoint := (List.nodup_flatten.1 (hc.nodup h)).2
  have : Std.Symm (@List.Disjoint ObservedMember) := ⟨fun _ _ h => h.symm⟩
  exact hdisjoint.forall hcm hdm hne ha ha'

/-- The members of a cluster are those related to one of them. -/
theorem IsClustering.mem_iff (hc : IsClustering r members clusters)
    (h : KeyNodup ObservedMember.key members) {c : List ObservedMember} (hcm : c ∈ clusters)
    {a : ObservedMember} (ha : a ∈ c) {b : ObservedMember} :
    b ∈ c ↔ b ∈ members ∧ Relation.EqvGen r a b := by
  constructor
  · intro hb
    have hbm := hc.mem hcm hb
    exact ⟨hbm, (hc.classes a (hc.mem hcm ha) b hbm).1 ⟨c, hcm, ha, hb⟩⟩
  · rintro ⟨hbm, hab⟩
    obtain ⟨d, hdm, had, hbd⟩ := (hc.classes a (hc.mem hcm ha) b hbm).2 hab
    rwa [hc.eq_of_mem h hcm hdm ha had]

theorem IsClustering.subset (hc : IsClustering r members clusters)
    (hc' : IsClustering r' members' clusters') (h : KeyNodup ObservedMember.key members)
    (hperm : members'.Perm members) (hr : ∀ a b, r a b ↔ r' a b) {c : List ObservedMember}
    (hcm : c ∈ clusters) : c ∈ clusters' := by
  have hr' : r = r' := funext fun a => funext fun b => propext (hr a b)
  subst hr'
  have h' : KeyNodup ObservedMember.key members' := (hperm.map _).nodup_iff.2 h
  obtain ⟨a, ha⟩ := List.exists_mem_of_ne_nil c (by rintro rfl; exact hc.nonempty hcm)
  have ham := hperm.mem_iff.2 (hc.mem hcm ha)
  obtain ⟨d, hdm, had, -⟩ := (hc'.classes a ham a ham).2 (.refl a)
  have hcd : c.Perm d := by
    refine (List.perm_ext_iff_of_nodup ?_ ?_).2 ?_
    · exact (List.nodup_flatten.1 (hc.nodup h)).1 c hcm
    · exact (List.nodup_flatten.1 (hc'.nodup h')).1 d hdm
    · intro b
      rw [hc.mem_iff h hcm ha, hc'.mem_iff h' hdm had, hperm.mem_iff]
  have heq : c = d := by
    refine hcd.eq_of_pairwise ?_ (hc.sorted c hcm) (hc'.sorted d hdm)
    intro x y hx hy hxy hyx
    exact h.eq_of_key (hc.mem hcm hx) (hperm.mem_iff.1 (hc'.mem hdm hy)) (Std.le_antisymm hxy hyx)
  rwa [heq]

theorem IsClustering.clusters_nodup (hc : IsClustering r members clusters)
    (h : KeyNodup ObservedMember.key members) : clusters.Nodup := by
  refine List.Pairwise.imp_of_mem ?_ (List.nodup_flatten.1 (hc.nodup h)).2
  rintro c d hcm - hdisjoint rfl
  obtain ⟨a, ha⟩ := List.exists_mem_of_ne_nil c (by rintro rfl; exact hc.nonempty hcm)
  exact hdisjoint ha ha

/-- **There is one such list of classes**, whatever the order of the members. -/
theorem IsClustering.unique (hc : IsClustering r members clusters)
    (hc' : IsClustering r' members' clusters') (h : KeyNodup ObservedMember.key members)
    (hperm : members'.Perm members) (hr : ∀ a b, r a b ↔ r' a b) : clusters = clusters' := by
  have h' : KeyNodup ObservedMember.key members' := (hperm.map _).nodup_iff.2 h
  have hto : ∀ c, c ∈ clusters ↔ c ∈ clusters' := fun c =>
    ⟨hc.subset hc' h hperm hr, hc'.subset hc h' hperm.symm fun a b => (hr a b).symm⟩
  have hsame : clusters.Perm clusters' :=
    (List.perm_ext_iff_of_nodup (hc.clusters_nodup h) (hc'.clusters_nodup h')).2 hto
  refine hsame.eq_of_pairwise ?_ hc.ordered hc'.ordered
  intro c d hcm hdm hcd hdc
  have hkey : headKey c = headKey d := Std.le_antisymm hcd hdc
  have hdm := (hto d).2 hdm
  match c, d with
  | [], _ => exact (hc.nonempty hcm).elim
  | _, [] => exact (hc.nonempty hdm).elim
  | a :: c, b :: d =>
      have hab : a = b := h.eq_of_key (hc.mem hcm List.mem_cons_self)
        (hc.mem hdm List.mem_cons_self) hkey
      subst hab
      exact hc.eq_of_mem h hcm hdm List.mem_cons_self List.mem_cons_self

end Unique

/-! ### The clusters -/

section Result

variable {toLower : Bytes → Bytes} {members : List ObservedMember}
  {overrides : List EntityIdentityOverride}

/-- The loop that collects the members groups them by their roots; its lookups change no root. -/
theorem foldl_groupMember (is : List (Fin members.length))
    (s : LinkForest (Fin members.length) × List (Fin members.length × List ObservedMember)) :
    (is.foldl groupMember s).2 =
      (is.map fun i => (s.1.rep i, members[i])).foldl (fun m p => push m p.1 p.2) s.2 := by
  induction is generalizing s with
  | nil => rfl
  | cons i is ih =>
      have hstep : groupMember s i = ((s.1.find i).1, push s.2 (s.1.rep i) members[i]) := rfl
      rw [List.foldl_cons, ih, hstep, List.map_cons, List.foldl_cons]
      simp only [LinkForest.find_rep]

theorem map_getElem_finRange (members : List ObservedMember) :
    ((List.finRange members.length).map fun i => members[i]) = members :=
  List.ext_getElem (by simp) (by simp)

instance : Std.Total fun a b : ObservedMember => a.key ≤ b.key := ⟨fun _ _ => Std.le_total⟩

instance : IsTrans ObservedMember fun a b => a.key ≤ b.key := ⟨fun _ _ _ h h' => Std.le_trans h h'⟩

instance : Std.Total fun c d : List ObservedMember => headKey c ≤ headKey d :=
  ⟨fun _ _ => Std.le_total⟩

instance : IsTrans (List ObservedMember) fun c d => headKey c ≤ headKey d :=
  ⟨fun _ _ _ h h' => Std.le_trans h h'⟩

/-- **The clusters are the classes of what belongs together.** -/
theorem identityClusters_isClustering (h : KeyNodup ObservedMember.key members)
    (features : MapOrder (Bytes × List (Fin members.length)))
    (groups : MapOrder (Fin members.length × List ObservedMember)) :
    IsClustering (Matched toLower members overrides) members
      (identityClusters toLower members overrides features groups) := by
  let forest := (LinkForest.singletons _).joinAll (memberJoins toLower members overrides features)
  let ps := (List.finRange members.length).map fun i => (forest.rep i, members[i])
  have hgrouped : ((List.finRange members.length).foldl groupMember (forest, [])).2 = group ps :=
    foldl_groupMember _ _
  have hvisit := groups.perm (group ps)
  have hclusters : identityClusters toLower members overrides features groups =
      ((groups.visit (group ps)).map fun g =>
        g.2.insertionSort fun a b => a.key ≤ b.key).insertionSort
          fun c d => headKey c ≤ headKey d := by
    rw [← hgrouped]
    rfl
  have hmem : ∀ c, c ∈ identityClusters toLower members overrides features groups ↔
      ∃ root vs, (root, vs) ∈ group ps ∧
        vs.insertionSort (fun a b => a.key ≤ b.key) = c := by
    intro c
    rw [hclusters, List.mem_insertionSort, List.mem_map, Prod.exists]
    simp only [hvisit.mem_iff]
  have hps : ∀ {root a}, (root, a) ∈ ps → ∃ i, forest.rep i = root ∧ members[i] = a := by
    intro root a ha
    obtain ⟨i, -, hi⟩ := List.mem_map.1 ha
    exact ⟨i, Prod.mk.inj hi⟩
  refine ⟨?_, ?_, ?_, ?_, ?_⟩
  · have hsorts : ∀ gs : List (Fin members.length × List ObservedMember),
        (gs.map fun g => g.2.insertionSort fun a b => a.key ≤ b.key).flatten.Perm
          (gs.map Prod.snd).flatten := by
      intro gs
      induction gs with
      | nil => rfl
      | cons g gs ih => exact (List.perm_insertionSort _ g.2).append ih
    have hvalues : ps.map Prod.snd = members := by
      rw [List.map_map]
      exact map_getElem_finRange members
    rw [hclusters]
    have hall := (hsorts _).trans ((hvisit.map Prod.snd).flatten.trans (flatten_group_perm ps))
    rw [hvalues] at hall
    exact (List.perm_insertionSort _ _).flatten.trans hall
  · intro hnil
    obtain ⟨root, vs, hvs, hsort⟩ := (hmem []).1 hnil
    have hlength := List.length_insertionSort (fun a b : ObservedMember => a.key ≤ b.key) vs
    rw [hsort] at hlength
    exact (mem_group.1 hvs).2 (List.length_eq_zero_iff.1 hlength.symm)
  · intro a ha b hb
    obtain ⟨i, rfl⟩ := exists_index ha
    obtain ⟨j, rfl⟩ := exists_index hb
    rw [← eqvGen_memberJoins h features, ← LinkForest.rep_joinAll_eq]
    have hroot : ∀ {root vs} {k : Fin members.length}, (root, vs) ∈ group ps → members[k] ∈ vs →
        forest.rep k = root := by
      intro root vs k hvs hk
      obtain ⟨k', hrep, hkey⟩ := hps (mem_of_mem_group hvs hk)
      rw [← hrep, index_inj h (congrArg ObservedMember.key hkey)]
    constructor
    · rintro ⟨c, hc, hi, hj⟩
      obtain ⟨root, vs, hvs, rfl⟩ := (hmem c).1 hc
      rw [List.mem_insertionSort] at hi hj
      exact (hroot hvs hi).trans (hroot hvs hj).symm
    · intro hij
      have hin : ∀ k, (forest.rep k, members[k]) ∈ ps :=
        fun k => List.mem_map.2 ⟨k, List.mem_finRange k, rfl⟩
      obtain ⟨vs, hvs, hi⟩ := exists_mem_group (hin i)
      have hj : members[j] ∈ vs := by
        rw [(mem_group.1 hvs).1, mem_valuesOf]
        have hj := hin j
        rwa [← show forest.rep i = forest.rep j from hij] at hj
      exact ⟨_, (hmem _).2 ⟨_, vs, hvs, rfl⟩, (List.mem_insertionSort _).2 hi,
        (List.mem_insertionSort _).2 hj⟩
  · intro c hc
    obtain ⟨root, vs, -, rfl⟩ := (hmem c).1 hc
    exact List.pairwise_insertionSort _ vs
  · rw [hclusters]
    exact List.pairwise_insertionSort _ _

omit toLower members in
theorem isDetached_perm {overrides' : List EntityIdentityOverride}
    (h : overrides'.Perm overrides) (m : ObservedMember) :
    isDetached overrides' m = isDetached overrides m := by
  rw [Bool.eq_iff_iff, isDetached, isDetached, List.any_eq_true, List.any_eq_true]
  simp only [h.mem_iff]

omit overrides in
theorem sharesFeature_congr {members' : List ObservedMember}
    (h : ∀ m, m ∈ members' ↔ m ∈ members) (a b : ObservedMember) :
    SharesFeature toLower members' a b ↔ SharesFeature toLower members a b := by
  simp only [SharesFeature, h]

/-- What belongs together does not depend on the order of the rows. -/
theorem matched_perm {members' : List ObservedMember} {overrides' : List EntityIdentityOverride}
    (hm : members'.Perm members) (ho : overrides'.Perm overrides) (a b : ObservedMember) :
    Matched toLower members' overrides' a b ↔ Matched toLower members overrides a b := by
  refine or_congr (sharesFeature_congr ?_ a b) ?_
  · intro m
    rw [List.mem_filter, List.mem_filter, hm.mem_iff, isDetached_perm ho]
  · simp only [MergedBy, hm.mem_iff, ho.mem_iff]

/-- Without overrides only features count. -/
theorem matched_nil (a b : ObservedMember) :
    Matched toLower members [] a b ↔ SharesFeature toLower members a b := by
  refine (or_iff_left ?_).trans (sharesFeature_congr ?_ a b)
  · rintro ⟨-, -, o, ho, -⟩
    exact absurd ho List.not_mem_nil
  · intro m
    rw [List.mem_filter, and_iff_left]
    rfl

/-- **The clusters are the classes** of the least equivalence that contains the matches, they do not
depend on the order of the members, of the overrides and of the maps, and without overrides they are
the classes of the shared features. -/
theorem identityClusters_classes (h : KeyNodup ObservedMember.key members)
    (features : MapOrder (Bytes × List (Fin members.length)))
    (groups : MapOrder (Fin members.length × List ObservedMember)) :
    IsClustering (Matched toLower members overrides) members
      (identityClusters toLower members overrides features groups) ∧
    (∀ (members' : List ObservedMember) (overrides' : List EntityIdentityOverride)
      (features' : MapOrder (Bytes × List (Fin members'.length)))
      (groups' : MapOrder (Fin members'.length × List ObservedMember)),
      members'.Perm members → overrides'.Perm overrides →
        identityClusters toLower members' overrides' features' groups' =
          identityClusters toLower members overrides features groups) ∧
    (overrides = [] → IsClustering (SharesFeature toLower members) members
      (identityClusters toLower members overrides features groups)) := by
  have hc : IsClustering (Matched toLower members overrides) members
      (identityClusters toLower members overrides features groups) :=
    identityClusters_isClustering h features groups
  refine ⟨hc, ?_, ?_⟩
  · intro members' overrides' features' groups' hm ho
    have h' : KeyNodup ObservedMember.key members' := (hm.map _).nodup_iff.2 h
    exact (identityClusters_isClustering h' features' groups').unique hc h' hm.symm
      (matched_perm hm ho)
  · rintro rfl
    have hr : Matched toLower members [] = SharesFeature toLower members :=
      funext fun a => funext fun b => propext (matched_nil a b)
    rwa [hr] at hc

end Result

/-- Two connectors report the host `pve`, one of them twice, and a third one something else. -/
def reportedMembers : List ObservedMember :=
  [⟨⟨bytes "c1", bytes "host", bytes "a", bytes "pve", bytes "1"⟩, [], bytes "pve", []⟩,
    ⟨⟨bytes "c1", bytes "host", bytes "b", bytes "pve", bytes "1"⟩, [], [], [bytes "pve"]⟩,
    ⟨⟨bytes "c2", bytes "host", bytes "c", bytes "pve", bytes "1"⟩, [], bytes "pve", []⟩,
    ⟨⟨bytes "c3", bytes "vm", bytes "d", bytes "web", bytes "1"⟩, bytes "7", [], []⟩]

/-- The second one is detached, and merged with the last. -/
def movingOverrides : List EntityIdentityOverride :=
  [⟨.detach, bytes "c1", bytes "host", bytes "b", [], [], []⟩,
    ⟨.merge, bytes "c1", bytes "host", bytes "b", bytes "c3", bytes "vm", bytes "d"⟩]

theorem identityClusters_reported :
    KeyNodup ObservedMember.key reportedMembers ∧
    (identityClusters id reportedMembers movingOverrides (.inserted _) (.backwards _)).map
      (fun c => c.map (·.ref)) = [[bytes "a", bytes "c"], [bytes "b", bytes "d"]] ∧
    IsClustering (Matched id reportedMembers movingOverrides) reportedMembers
      (identityClusters id reportedMembers movingOverrides (.inserted _) (.backwards _)) :=
  ⟨by decide, by decide, (identityClusters_classes (by decide) _ _).1⟩

end WiseLabz.Identity
