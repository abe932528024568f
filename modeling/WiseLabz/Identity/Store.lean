/-
**Entity identities.**

An identity gathers the observations of one thing by several connectors.  A reconciliation is given
the observations, in clusters that belong together, and rewrites the identities and their members:
each cluster claims the oldest identity that its members had, the others it had are merged into that
one, members that are no longer observed are gone, and so are identities without members.  A purge
deletes what has been gone, or merged, for long enough.

Main definitions:

* `Identity.EntityMemberRecord`, `Identity.EntityIdentity`, `Identity.StoredIdentityMember`,
  `Identity.Db` — observations, the rows, and the tables;
* `Identity.chooseIdentityIDs` — the identity of each cluster, and the merges;
* `Identity.buildIdentityDiff`, `Identity.flattenIdentityRedirects`,
  `Identity.markUnobservedIdentitiesGone` — the rows to write;
* `Identity.reconcileEntityIdentities`, `Identity.deleteExpiredEntityIdentities` — the two
  transactions.
-/

import WiseLabz.Lib.Bytes
import WiseLabz.Lib.Table
import Mathlib.Data.List.Sort

set_option relaxedAutoImplicit false
set_option autoImplicit false

namespace WiseLabz.Identity

open Lib

/-! ### Rows -/

/-- One observation of an entity by a connector. -/
structure EntityMemberRecord where
  connectorID : Bytes
  kind : Bytes
  ref : Bytes
  name : Bytes
  observedAt : Bytes
  deriving DecidableEq, Repr

/-- The row of an identity; `none` stands for NULL. -/
structure EntityIdentity where
  id : Bytes
  kind : Bytes
  name : Bytes
  firstSeen : Bytes
  lastSeen : Bytes
  goneAt : Option Bytes
  mergedInto : Option Bytes
  mergedAt : Option Bytes
  deriving DecidableEq, Repr

/-- The row of a member of an identity. -/
structure StoredIdentityMember where
  entityID : Bytes
  connectorID : Bytes
  kind : Bytes
  ref : Bytes
  name : Bytes
  goneAt : Option Bytes
  deriving DecidableEq, Repr

/-- The tables. -/
structure Db where
  entities : List EntityIdentity
  members : List StoredIdentityMember
  deriving DecidableEq, Repr

def identityMemberKey (connectorID kind ref : Bytes) : Bytes :=
  connectorID ++ 0 :: (kind ++ 0 :: ref)

def EntityMemberRecord.key (m : EntityMemberRecord) : Bytes :=
  identityMemberKey m.connectorID m.kind m.ref

def StoredIdentityMember.key (m : StoredIdentityMember) : Bytes :=
  identityMemberKey m.connectorID m.kind m.ref

/-- The columns that name the member. -/
def EntityMemberRecord.columns (m : EntityMemberRecord) : Bytes × Bytes × Bytes :=
  (m.connectorID, m.kind, m.ref)

def StoredIdentityMember.columns (m : StoredIdentityMember) : Bytes × Bytes × Bytes :=
  (m.connectorID, m.kind, m.ref)

/-- What belongs together. -/
abbrev Cluster := List EntityMemberRecord

/-- The key of the first member. -/
def clusterKey : Cluster → Bytes
  | [] => []
  | m :: _ => m.key

/-- The identity with an id; an absent one has empty fields. -/
def entityOf (entities : List EntityIdentity) (id : Bytes) : EntityIdentity :=
  (lookup EntityIdentity.id entities id).getD ⟨[], [], [], [], [], none, none, none⟩

/-! ### Choosing identities -/

/-- The members of each cluster, and the clusters, in the order of their keys. -/
def sortIdentityClusters (clusters : List Cluster) : List Cluster :=
  (clusters.map fun c => c.insertionSort fun a b => ¬ b.key < a.key).insertionSort
    fun c d => ¬ clusterKey d < clusterKey c

/-- Follows redirects; `seen` ends a circle, and `fuel` bounds the length of `seen`. -/
def resolveLoop (entities : List EntityIdentity) : ℕ → List Bytes → Bytes → Bytes
  | 0, _, id => id
  | fuel + 1, seen, id =>
      if id = [] ∨ id ∈ seen then id
      else
        match (entityOf entities id).mergedInto with
        | none => id
        | some target => resolveLoop entities fuel (id :: seen) target

/-- The identity that redirects lead to. -/
def resolveExistingIdentity (id : Bytes) (entities : List EntityIdentity) : Bytes :=
  resolveLoop entities (entities.length + 1) [] id

/-- The identities that the members of a cluster had. -/
def candidates (cluster : Cluster) (members : List StoredIdentityMember)
    (entities : List EntityIdentity) : List Bytes :=
  (cluster.filterMap fun m => (lookup StoredIdentityMember.key members m.key).map fun old =>
    resolveExistingIdentity old.entityID entities).dedup

/-- The identity that was seen first; the id breaks ties. -/
def older (entities : List EntityIdentity) (a b : Bytes) : Bool :=
  let fa := (entityOf entities a).firstSeen
  let fb := (entityOf entities b).firstSeen
  if fa ≠ fb then fa < fb else a < b

def clusterHasActiveMember (cluster : Cluster) (members : List StoredIdentityMember) : Bool :=
  cluster.any fun m => (lookup StoredIdentityMember.key members m.key).any fun old => old.goneAt.isNone

/-- What decides when a cluster claims its identity. -/
structure ClaimOrder where
  cluster : Cluster
  active : Bool
  /-- Empty when the cluster has no existing identity. -/
  oldest : Bytes
  /-- The number of identities that the cluster would merge. -/
  spread : ℕ

def claimOrder (cluster : Cluster) (members : List StoredIdentityMember)
    (entities : List EntityIdentity) : ClaimOrder :=
  let ids := (candidates cluster members entities).filter (· ≠ [])
  { cluster
    active := clusterHasActiveMember cluster members
    oldest := ids.foldl (fun oldest id => if oldest = [] ∨ older entities id oldest then id else oldest)
      []
    spread := ids.length }

/-- Clusters with active members come first, then the cluster with the oldest identity. -/
def ClaimOrder.less (entities : List EntityIdentity) (x y : ClaimOrder) : Bool :=
  if x.active ≠ y.active then x.active
  else if x.oldest ≠ y.oldest then
    if x.oldest = [] ∨ y.oldest = [] then y.oldest = [] else older entities x.oldest y.oldest
  else if x.spread ≠ y.spread then x.spread > y.spread
  else clusterKey x.cluster < clusterKey y.cluster

/-- What has been chosen so far: the identities by the keys of their clusters, the merges as pairs
of a loser and its winner, and the identities in use. -/
structure IdentityChoice where
  chosen : List (Bytes × Bytes)
  mergedInto : List (Bytes × Bytes)
  used : List Bytes

/-- The winner that a loser is merged into. -/
def mergeTarget (mergedInto : List (Bytes × Bytes)) (id : Bytes) : Option Bytes :=
  (lookup Prod.fst mergedInto id).map Prod.snd

/-- The identities that a cluster may still claim, the oldest first. -/
def claimable (cluster : Cluster) (members : List StoredIdentityMember)
    (entities : List EntityIdentity) (c : IdentityChoice) : List Bytes :=
  ((candidates cluster members entities).filter fun id =>
    id ≠ [] ∧ id ∉ c.used ∧ mergeTarget c.mergedInto id = none).insertionSort
      fun a b => ¬ older entities b a

/-- A cluster claims the oldest of its identities, and the others are merged into that one; without
any it takes a new one. -/
def claimCluster (members : List StoredIdentityMember) (entities : List EntityIdentity)
    (c : IdentityChoice) (p : Cluster × Bytes) : IdentityChoice :=
  match claimable p.1 members entities c with
  | [] => { c with chosen := put Prod.fst c.chosen (clusterKey p.1, p.2) }
  | id :: losers =>
      { chosen := put Prod.fst c.chosen (clusterKey p.1, id)
        mergedInto := putAll Prod.fst c.mergedInto (losers.map fun loser => (loser, id))
        used := id :: c.used }

/-- **The identity of each cluster, and the merges**; `newIds` are the ids generated for the
clusters, in the order in which they claim. -/
def chooseIdentityIDs (clusters : List Cluster) (newIds : List Bytes)
    (members : List StoredIdentityMember) (entities : List EntityIdentity) : IdentityChoice :=
  let claims := (clusters.map fun c => claimOrder c members entities).insertionSort
    fun x y => ¬ ClaimOrder.less entities y x
  ((claims.map (·.cluster)).zip newIds).foldl (claimCluster members entities) ⟨[], [], []⟩

/-- The identity chosen for a cluster. -/
def chosenID (chosen : List (Bytes × Bytes)) (cluster : Cluster) : Bytes :=
  ((lookup Prod.fst chosen (clusterKey cluster)).map Prod.snd).getD []

/-! ### The rows to write -/

/-- What changes: identities to write, identities with an active member, members as they should be,
and members that are gone. -/
structure IdentityDiff where
  updates : List EntityIdentity
  active : List Bytes
  desired : List StoredIdentityMember
  gone : List StoredIdentityMember

/-- The row of the identity of a cluster. -/
def clusterIdentity (cluster : Cluster) (id : Bytes) (entities : List EntityIdentity) (now : Bytes) :
    EntityIdentity :=
  let first := cluster.foldl (fun first m =>
    if m.observedAt ≠ [] ∧ m.observedAt < first then m.observedAt else first) now
  let last := cluster.foldl (fun last m =>
    if last < m.observedAt then m.observedAt else last) []
  let old := entityOf entities id
  { id
    kind := (cluster.head?.map (·.kind)).getD []
    name := (cluster.head?.map (·.name)).getD []
    firstSeen :=
      if (lookup EntityIdentity.id entities id).isSome ∧ old.firstSeen < first then old.firstSeen
      else first
    lastSeen := if last = [] then now else last
    goneAt := none, mergedInto := none, mergedAt := none }

/-- Whether the stored row of an identity has to be written. -/
def identityChanged (entities : List EntityIdentity) (updated : EntityIdentity) : Bool :=
  match lookup EntityIdentity.id entities updated.id with
  | none => true
  | some old =>
      old.kind ≠ updated.kind || old.name ≠ updated.name || old.firstSeen ≠ updated.firstSeen ||
        old.lastSeen ≠ updated.lastSeen || old.goneAt.isSome || old.mergedInto.isSome

/-- The members of a cluster as they should be. -/
def desiredMembers (id : Bytes) (cluster : Cluster) : List StoredIdentityMember :=
  cluster.map fun m => ⟨id, m.connectorID, m.kind, m.ref, m.name, none⟩

def buildIdentityDiff (clusters : List Cluster) (chosen : List (Bytes × Bytes))
    (oldMembers : List StoredIdentityMember) (entities : List EntityIdentity) (preserve : List Bytes)
    (now : Bytes) : IdentityDiff :=
  let preserved := oldMembers.filter fun old => old.connectorID ∈ preserve ∧ old.goneAt = none
  let rows := clusters.map fun c => clusterIdentity c (chosenID chosen c) entities now
  let desired := putAll StoredIdentityMember.key []
    (clusters.flatMap fun c => desiredMembers (chosenID chosen c) c)
  { updates := rows.foldl (fun u r =>
      if identityChanged entities r then put EntityIdentity.id u r else u) []
    active := (preserved.map fun old => resolveExistingIdentity old.entityID entities) ++
      clusters.map (chosenID chosen)
    desired
    gone := oldMembers.filter fun old =>
      old.connectorID ∉ preserve ∧ lookup StoredIdentityMember.key desired old.key = none ∧
        old.goneAt = none }

/-- Follows merges and redirects. -/
def resolveFinalLoop (entities : List EntityIdentity) (mergedInto : List (Bytes × Bytes)) :
    ℕ → List Bytes → Bytes → Bytes
  | 0, _, id => id
  | fuel + 1, seen, id =>
      if id = [] ∨ id ∈ seen then id
      else
        match mergeTarget mergedInto id with
        | some target => resolveFinalLoop entities mergedInto fuel (id :: seen) target
        | none =>
            match (entityOf entities id).mergedInto with
            | none => id
            | some target => resolveFinalLoop entities mergedInto fuel (id :: seen) target

/-- The identity that merges and redirects lead to. -/
def resolveFinalIdentity (id : Bytes) (entities : List EntityIdentity)
    (mergedInto : List (Bytes × Bytes)) : Bytes :=
  resolveFinalLoop entities mergedInto (entities.length + mergedInto.length + 1) [] id

/-- The row of a loser. -/
def mergedIdentity (entities : List EntityIdentity) (now : Bytes) (p : Bytes × Bytes) :
    EntityIdentity :=
  { entityOf entities p.1 with
    id := p.1, mergedInto := some p.2, goneAt := none, mergedAt := some now }

/-- A redirect, led to the final winner. -/
def redirected (entities : List EntityIdentity) (mergedInto : List (Bytes × Bytes))
    (old : EntityIdentity) : EntityIdentity :=
  { old with mergedInto := old.mergedInto.map fun target =>
      resolveFinalIdentity target entities mergedInto }

/-- New merges are recorded, and older redirects lead to their final winners. -/
def flattenIdentityRedirects (entities : List EntityIdentity) (mergedInto : List (Bytes × Bytes))
    (updates : List EntityIdentity) (now : Bytes) : List EntityIdentity :=
  let updates := putAll EntityIdentity.id updates (mergedInto.map (mergedIdentity entities now))
  entities.foldl (fun u old =>
    if old.mergedInto.any fun target => resolveFinalIdentity target entities mergedInto ≠ target then
      put EntityIdentity.id u (redirected entities mergedInto old)
    else u) updates

/-- An identity that nothing observes any more. -/
def isUnobserved (active : List Bytes) (mergedInto : List (Bytes × Bytes)) (old : EntityIdentity) :
    Bool :=
  old.mergedInto = none ∧ old.id ∉ active ∧ mergeTarget mergedInto old.id = none ∧
    old.goneAt = none

def markUnobservedIdentitiesGone (entities : List EntityIdentity) (active : List Bytes)
    (mergedInto : List (Bytes × Bytes)) (updates : List EntityIdentity) (now : Bytes) :
    List EntityIdentity :=
  entities.foldl (fun u old =>
    if isUnobserved active mergedInto old then
      put EntityIdentity.id u { old with goneAt := some now }
    else u) updates

/-! ### Writing -/

/-- The rows that the statement names are gone. -/
def markIdentityMembersGone (members gone : List StoredIdentityMember) (now : Bytes) :
    List StoredIdentityMember :=
  members.map fun m =>
    if (gone.any fun g => g.columns = m.columns) ∧ m.goneAt = none then { m with goneAt := some now }
    else m

/-- A member that is not yet as it should be. -/
def memberChanged (old : List StoredIdentityMember) (m : StoredIdentityMember) : Bool :=
  match lookup StoredIdentityMember.key old m.key with
  | none => true
  | some prior => prior.entityID ≠ m.entityID || prior.name ≠ m.name || prior.goneAt.isSome

/-- Members that are known are updated, the others are inserted. -/
def upsertIdentityMembers (members old desired : List StoredIdentityMember) :
    List StoredIdentityMember :=
  let changed := desired.filter (memberChanged old)
  let known := changed.filter fun m => (lookup StoredIdentityMember.key old m.key).isSome
  let new := changed.filter fun m => (lookup StoredIdentityMember.key old m.key).isNone
  (members.map fun row =>
    match lookup StoredIdentityMember.columns known row.columns with
    | none => row
    | some m => { row with entityID := m.entityID, name := m.name, goneAt := none }) ++ new

/-- The members of a loser become members of its winner, unless it has them already. -/
def moveMergedIdentityMembers (mergedInto : List (Bytes × Bytes))
    (members : List StoredIdentityMember) : List StoredIdentityMember :=
  mergedInto.foldl (fun ms p =>
    (ms.filter fun m => ¬ (m.entityID = p.1 ∧
      ms.any fun w => w.entityID = p.2 ∧ w.columns = m.columns)).map fun m =>
        if m.entityID = p.1 then { m with entityID := p.2 } else m) members

/-- **A reconciliation.** -/
def reconcileEntityIdentities (db : Db) (clusters : List Cluster) (preserve newIds : List Bytes)
    (now : Bytes) : Db :=
  let entities := putAll EntityIdentity.id [] db.entities
  let oldMembers := putAll StoredIdentityMember.key [] db.members
  let clusters := sortIdentityClusters clusters
  let choice := chooseIdentityIDs clusters newIds oldMembers entities
  let diff := buildIdentityDiff clusters choice.chosen oldMembers entities preserve now
  let updates := flattenIdentityRedirects entities choice.mergedInto diff.updates now
  let updates := markUnobservedIdentitiesGone entities diff.active choice.mergedInto updates now
  { entities := putAll EntityIdentity.id db.entities updates
    members := moveMergedIdentityMembers choice.mergedInto
      (upsertIdentityMembers (markIdentityMembersGone db.members diff.gone now) oldMembers
        diff.desired) }

/-- An identity that has been gone, or merged, for long enough. -/
def EntityIdentity.expired (cutoff : Bytes) (e : EntityIdentity) : Bool :=
  e.goneAt.any (· < cutoff) || (e.mergedInto.isSome && e.mergedAt.any (· < cutoff))

/-- **A purge**: expired identities are deleted with their members, and a redirect to a deleted
identity is set to NULL, as the foreign key demands. -/
def deleteExpiredEntityIdentities (db : Db) (cutoff : Bytes) : Db :=
  let isExpired id := db.entities.any fun e => e.id = id && e.expired cutoff
  { entities := (db.entities.filter fun e => ¬ e.expired cutoff).map fun e =>
      { e with mergedInto := e.mergedInto.filter fun target => ¬ isExpired target }
    members := db.members.filter fun m => ¬ isExpired m.entityID }

end WiseLabz.Identity
