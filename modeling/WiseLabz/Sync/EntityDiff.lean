/-
**The differences of two snapshots' entities.**

Entities are told apart by their kind and their external id, or their name if they have none; of two
with the same key the last counts.  An entity that only one of the snapshots has is one change, and
one that both have is compared field by field and attribute by attribute.  The changes are sorted by
kind, key and field.

Main definitions:

* `Sync.SnapshotEntity`, `Sync.EntityChange` — entities and their changes;
* `Sync.compareEntities` — **the changes between two lists of entities**;
* `Sync.compareDependencies`, `Sync.buildSnapshotDiff` — the whole comparison, with its counters.
-/

import WiseLabz.Lib.Dict
import WiseLabz.Sync.Snapshot

set_option relaxedAutoImplicit false
set_option autoImplicit false

namespace WiseLabz.Sync

open Lib

variable {ν : Type}

/-! ### Entities -/

/-- An entity of a snapshot.  The values of its attributes are JSON values, `none` being null. -/
structure SnapshotEntity (ν : Type) where
  kind : Bytes
  name : Bytes
  ip : Bytes
  hostname : Bytes
  mac : Bytes
  aliases : List Bytes
  externalID : Bytes
  attributes : Dict Bytes (Option ν)
  deriving DecidableEq

def entityKey (e : SnapshotEntity ν) : Bytes :=
  if e.externalID ≠ [] then bytes "externalId:" ++ e.externalID else bytes "name:" ++ e.name

/-- The key of the map of the entities. -/
def mapKey (e : SnapshotEntity ν) : Bytes := e.kind ++ 0 :: entityKey e

/-- The entities by key: of two with one key, the last counts. -/
def entityMap (entities : List (SnapshotEntity ν)) : List (SnapshotEntity ν) :=
  putAll mapKey [] entities

/-! ### Changes -/

/-- What the old or the new value of a change is, if it is not nil. -/
inductive FieldValue (ν : Type)
  | entity (e : SnapshotEntity ν)
  | text (s : Bytes)
  | names (aliases : List Bytes)
  | value (v : ν)
  deriving DecidableEq

/-- One changed field of an entity.  A new entity, or one that is gone, is a change of the field
`entity` with the whole entity as its value. -/
structure EntityChange (ν : Type) where
  kind : Bytes
  key : Bytes
  name : Bytes
  field : Bytes
  change : ChangeType
  old : Option (FieldValue ν)
  new : Option (FieldValue ν)
  deriving DecidableEq

variable [DecidableEq ν]

/-- The change of a field of the entity `e`, if there is one. -/
def addField (e : SnapshotEntity ν) (field : Bytes) (a b : Option (FieldValue ν))
    (oldExists newExists : Bool) : List (EntityChange ν) :=
  if oldExists ∧ newExists ∧ a = b then []
  else
    [{  kind := e.kind
        key := entityKey e
        name := e.name
        field := field
        change := if ¬ oldExists then .added else if ¬ newExists then .removed else .modified
        old := if oldExists then a else none
        new := if newExists then b else none }]

def sortedNames (names : List Bytes) : List Bytes := names.insertionSort fun a b => ¬ b < a

/-- The name of an attribute's field. -/
def attributeField (attr : Bytes) : Bytes := bytes "attributes." ++ attr

/-- The attributes of the two entities, each once. -/
def attributeKeys (old newer : SnapshotEntity ν) : List Bytes :=
  sortedNames (old.attributes.keys ++
    newer.attributes.keys.filter fun attr => attr ∉ old.attributes.keys)

/-- The changes of an entity that both lists have. -/
def fieldChanges (old newer : SnapshotEntity ν) : List (EntityChange ν) :=
  addField newer (bytes "name") (some (.text old.name)) (some (.text newer.name)) true true ++
    addField newer (bytes "ip") (some (.text old.ip)) (some (.text newer.ip)) true true ++
    addField newer (bytes "hostname") (some (.text old.hostname)) (some (.text newer.hostname))
      true true ++
    addField newer (bytes "mac") (some (.text old.mac)) (some (.text newer.mac)) true true ++
    (if sortedNames old.aliases ≠ sortedNames newer.aliases then
      addField newer (bytes "aliases") (some (.names old.aliases)) (some (.names newer.aliases))
        true true
    else []) ++
    (attributeKeys old newer).flatMap fun attr =>
      let a := old.attributes.get attr
      let b := newer.attributes.get attr
      addField newer (attributeField attr) (a.join.map .value) (b.join.map .value) a.isSome b.isSome

/-- The changes from what is under a key before to what is there after. -/
def entityChanges : Option (SnapshotEntity ν) → Option (SnapshotEntity ν) → List (EntityChange ν)
  | none, none => []
  | none, some newer =>
      [⟨newer.kind, entityKey newer, newer.name, bytes "entity", .added, none,
        some (.entity newer)⟩]
  | some old, none =>
      [⟨old.kind, entityKey old, old.name, bytes "entity", .removed, some (.entity old), none⟩]
  | some old, some newer => fieldChanges old newer

/-- The changes under a key of the two maps. -/
def keyChanges (before after : List (SnapshotEntity ν)) (k : Bytes) : List (EntityChange ν) :=
  entityChanges (lookup mapKey before k) (lookup mapKey after k)

omit [DecidableEq ν] in
/-- The order of the changes. -/
def changeLess (a b : EntityChange ν) : Bool :=
  if a.kind ≠ b.kind then a.kind < b.kind
  else if a.key ≠ b.key then a.key < b.key
  else a.field < b.field

/-- The keys of the two maps, each once, in order. -/
def diffKeys (before after : List (SnapshotEntity ν)) : List Bytes :=
  sortedNames (before.map mapKey ++ (after.map mapKey).filter fun k => k ∉ before.map mapKey)

/-- **The changes between two lists of entities.** -/
def compareEntities (prev curr : List (SnapshotEntity ν)) : List (EntityChange ν) :=
  ((diffKeys (entityMap prev) (entityMap curr)).flatMap
    (keyChanges (entityMap prev) (entityMap curr))).insertionSort fun a b => ¬ changeLess b a

/-! ### Dependencies -/

/-- An added or removed dependency. -/
structure DependencyChange where
  kind : Bytes
  name : Bytes
  ref : Bytes
  change : ChangeType
  deriving DecidableEq, Repr

def dependencyKey (d : ServiceDependency) : Bytes := d.kind ++ 0 :: (d.name ++ 0 :: d.ref)

def dependencyLess (a b : DependencyChange) : Bool :=
  if a.kind ≠ b.kind then a.kind < b.kind
  else if a.name ≠ b.name then a.name < b.name
  else if a.ref ≠ b.ref then a.ref < b.ref
  else a.change.text < b.change.text

/-- The dependencies that only one of the lists has. -/
def compareDependencies (prev curr : List ServiceDependency) : List DependencyChange :=
  let before := putAll dependencyKey [] prev
  let after := putAll dependencyKey [] curr
  let removed := before.filter fun d => (lookup dependencyKey after (dependencyKey d)).isNone
  let added := after.filter fun d => (lookup dependencyKey before (dependencyKey d)).isNone
  ((removed.map fun d => DependencyChange.mk d.kind d.name d.ref .removed) ++
    added.map fun d => DependencyChange.mk d.kind d.name d.ref .added).insertionSort
      fun a b => ¬ dependencyLess b a

/-! ### The whole comparison -/

/-- The numbers of changed sections, of distinct entities and of dependencies. -/
structure SnapshotDiffSummary where
  sectionsAdded : ℕ
  sectionsRemoved : ℕ
  sectionsModified : ℕ
  entitiesAdded : ℕ
  entitiesRemoved : ℕ
  entitiesModified : ℕ
  dependenciesAdded : ℕ
  dependenciesRemoved : ℕ
  deriving DecidableEq, Repr

structure SnapshotDiff (ν : Type) where
  summary : SnapshotDiffSummary
  sections : List DiffResult
  entities : List (EntityChange ν)
  dependencies : List DependencyChange

omit [DecidableEq ν] in
/-- A change of a field modifies its entity. -/
def EntityChange.counted (c : EntityChange ν) : ChangeType :=
  if c.field ≠ bytes "entity" then .modified else c.change

omit [DecidableEq ν] in
/-- The entities with a change of a type, each once. -/
def entityCounts (changes : List (EntityChange ν)) (t : ChangeType) : List Bytes :=
  ((changes.filter fun c => c.counted = t).map fun c => c.kind ++ 0 :: c.key).dedup

/-- **The comparison of two snapshots.** -/
def buildSnapshotDiff (prev curr : ServiceSnapshot (List (SnapshotEntity ν))) : SnapshotDiff ν :=
  let sections := compare prev curr
  let entities := compareEntities prev.inventory curr.inventory
  let dependencies := compareDependencies prev.dependencies curr.dependencies
  { summary := {
      sectionsAdded := sections.countP fun d => d.changeType = .added
      sectionsRemoved := sections.countP fun d => d.changeType = .removed
      sectionsModified := sections.countP fun d => d.changeType = .modified
      entitiesAdded := (entityCounts entities .added).length
      entitiesRemoved := (entityCounts entities .removed).length
      entitiesModified := (entityCounts entities .modified).length
      dependenciesAdded := dependencies.countP fun d => d.change = .added
      dependenciesRemoved := dependencies.countP fun d => d.change ≠ .added }
    sections
    entities
    dependencies }

end WiseLabz.Sync
