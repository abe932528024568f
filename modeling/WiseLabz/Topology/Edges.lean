/-
**The edges of the topology.**

A connector's latest snapshot lists entities and dependencies.  From it, and from the snapshots of
the other connectors, a rebuild derives edges: entities of two connectors that match are the same
thing, a DNS record resolves to what it matches, a service depends on something, a container runs
on a host, and a proxy forwards to an upstream.

Main definitions:

* `Topology.SnapshotEntity`, `Topology.ConnectorRecord`, `Topology.TopologyEdge` — the data;
* `Topology.matchReason` — why two entities match;
* `Topology.matchEntityPairs`, `Topology.capIPOnlyLinks` — the pairs of entities that match;
* `Topology.topologyEdges` — **the edges that a rebuild derives**.
-/

import WiseLabz.Lib.Bytes
import WiseLabz.Lib.Joined
import WiseLabz.Lib.Table
import Mathlib.Data.List.Sort

set_option relaxedAutoImplicit false
set_option autoImplicit false

namespace WiseLabz.Topology

open Lib

/-! ### Data -/

/-- What is used of the language's packages for texts and URLs. -/
structure Text where
  /-- Simple Unicode case folding. -/
  caseFold : Bytes → Bytes
  toLower : Bytes → Bytes
  trimSpace : Bytes → Bytes
  /-- The host and the port of a URL that has a host. -/
  hostPort : Bytes → Option (Bytes × Bytes)

def Text.equalFold (x : Text) (s t : Bytes) : Bool := x.caseFold s = x.caseFold t

/-- The value of an attribute: a string, or another value with what is printed for it. -/
inductive AttributeValue
  | string (s : Bytes)
  | other (printed : Bytes)

def AttributeValue.string? : AttributeValue → Option Bytes
  | .string s => some s
  | .other _ => none

def AttributeValue.printed : AttributeValue → Bytes
  | .string s => s
  | .other printed => printed

structure SnapshotEntity where
  kind : Bytes
  name : Bytes
  ip : Bytes
  hostname : Bytes
  aliases : List Bytes
  externalID : Bytes
  attributes : List (Bytes × AttributeValue)

/-- The value of an attribute. -/
def SnapshotEntity.attribute (e : SnapshotEntity) (name : Bytes) : Option AttributeValue :=
  (lookup Prod.fst e.attributes name).map Prod.snd

/-- An attribute that is a string. -/
def SnapshotEntity.stringAttribute (e : SnapshotEntity) (name : Bytes) : Option Bytes :=
  (e.attribute name).bind AttributeValue.string?

structure ServiceDependency where
  kind : Bytes
  name : Bytes
  ref : Bytes

structure ServiceSnapshot where
  entities : List SnapshotEntity
  dependencies : List ServiceDependency

/-- The latest snapshot of a connector. -/
inductive Latest
  | missing
  | unreadable
  | snapshot (snap : ServiceSnapshot)

structure ConnectorRecord where
  id : Bytes
  name : Bytes
  latest : Latest

/-- The entities of the latest snapshot, if it can be read. -/
def ConnectorRecord.entities (c : ConnectorRecord) : List SnapshotEntity :=
  match c.latest with
  | .snapshot snap => snap.entities
  | _ => []

/-- One end of an edge. -/
structure Endpoint where
  connectorID : Bytes
  kind : Bytes
  name : Bytes
  ref : Bytes
  deriving DecidableEq, Repr

/-- An edge; `connectorID` is its owner. -/
structure TopologyEdge where
  connectorID : Bytes
  src : Endpoint
  dst : Endpoint
  kind : Bytes
  source : Bytes
  detail : Bytes
  deriving DecidableEq, Repr

def topologyEdgeDependency : Bytes := bytes "dependency"
def topologyEdgeSameAs : Bytes := bytes "same_as"
def topologyEdgeContains : Bytes := bytes "contains"
def topologyEdgeResolvesTo : Bytes := bytes "resolves_to"
def topologyEdgeProxiesTo : Bytes := bytes "proxies_to"
def topologyEdgeRunsOn : Bytes := bytes "runs_on"
def topologyServiceKind : Bytes := bytes "service"

/-- The identity of an entity in its connector. -/
def entityRef (e : SnapshotEntity) : Bytes := if e.externalID ≠ [] then e.externalID else e.name

/-- The service node of a connector. -/
def serviceNode (connectorID name : Bytes) : Endpoint :=
  ⟨connectorID, topologyServiceKind, name, connectorID⟩

/-- The node of an entity. -/
def entityNode (connectorID : Bytes) (e : SnapshotEntity) : Endpoint :=
  ⟨connectorID, e.kind, e.name, entityRef e⟩

/-! ### Entities that match -/

def matchesHostnameOrAlias (x : Text) (name : Bytes) (e : SnapshotEntity) : Bool :=
  (e.hostname ≠ [] && x.equalFold name e.hostname) ||
    e.aliases.any fun other => other ≠ [] && x.equalFold name other

def hostnameMatches (x : Text) (a b : SnapshotEntity) : Bool :=
  let aHasNames := a.hostname ≠ [] || a.aliases.length > 0
  let bHasNames := b.hostname ≠ [] || b.aliases.length > 0
  if !aHasNames || !bHasNames then false
  else
    (a.hostname ≠ [] && matchesHostnameOrAlias x a.hostname b) ||
      a.aliases.any fun other => other ≠ [] && matchesHostnameOrAlias x other b

def reasonExternalID : Bytes := bytes "external ID"
def reasonIPAddress : Bytes := bytes "IP address"
def reasonHostname : Bytes := bytes "hostname"

/-- A reason that tells an identity. -/
def strongMatchReason (x : Text) (a b : SnapshotEntity) : Bytes :=
  if a.externalID ≠ [] ∧ b.externalID ≠ [] ∧ a.kind = b.kind ∧ a.externalID = b.externalID then
    reasonExternalID
  else if hostnameMatches x a b then reasonHostname
  else []

/-- Why two entities match; empty if they do not. -/
def matchReason (x : Text) (a b : SnapshotEntity) : Bytes :=
  if strongMatchReason x a b = reasonExternalID then strongMatchReason x a b
  else if a.ip ≠ [] ∧ b.ip ≠ [] ∧ a.ip = b.ip then reasonIPAddress
  else strongMatchReason x a b

/-- An entity of another connector that matches an entity of the one at hand. -/
structure EntityLink where
  entity : SnapshotEntity
  localEntity : SnapshotEntity
  connectorID : Bytes
  connectorName : Bytes
  reason : Bytes

def sameAsKey (connectorID kind ref : Bytes) : Bytes := connectorID ++ 0 :: (kind ++ 0 :: ref)

/-- The key of an entity, with bars between its parts. -/
def dedupKey (connectorID : Bytes) (e : SnapshotEntity) : Bytes :=
  if e.externalID ≠ [] then
    connectorID ++ bytes "|" ++ e.kind ++ bytes "|" ++ e.externalID
  else
    connectorID ++ bytes "|" ++ e.kind ++ bytes "|" ++ e.name ++ bytes "|" ++ e.ip ++ bytes "|" ++
      e.hostname

/-- The key of a pair. -/
def pairKey (connectorID : Bytes) (l : EntityLink) : Bytes :=
  dedupKey l.connectorID l.entity ++ bytes ">" ++ dedupKey connectorID l.localEntity

/-- All pairs that match. -/
def matchingPairs (x : Text) (connectors : List ConnectorRecord) (connectorID : Bytes)
    (entities : List SnapshotEntity) : List EntityLink :=
  (connectors.filter (·.id ≠ connectorID)).flatMap fun c =>
    c.entities.flatMap fun other =>
      entities.filterMap fun mine =>
        let reason := matchReason x mine other
        if reason = [] then none else some ⟨other, mine, c.id, c.name, reason⟩

/-- An address that more entities share links only the first of them. -/
def maxIPOnlyGroup : ℕ := 50

/-- The keys of the entities that share an address. -/
def ipGroup (connectors : List ConnectorRecord) (connectorID : Bytes)
    (entities : List SnapshotEntity) (ip : Bytes) : List Bytes :=
  (entities.filter (·.ip = ip)).map (fun mine => sameAsKey connectorID mine.kind (entityRef mine)) ++
    (connectors.filter (·.id ≠ connectorID)).flatMap fun c =>
      (c.entities.filter (·.ip = ip)).map fun other => sameAsKey c.id other.kind (entityRef other)

/-- The keys that an address links, if it is shared by too many. -/
def allowedKeys (group : List Bytes) : Option (List Bytes) :=
  if group.length ≤ maxIPOnlyGroup then none
  else some ((group.insertionSort fun a b => ¬ b < a).take maxIPOnlyGroup)

/-- Links by nothing but a shared address are only kept for the first entities with it. -/
def capIPOnlyLinks (x : Text) (links : List EntityLink) (connectorID : Bytes)
    (groups : Bytes → List Bytes) : List EntityLink :=
  links.filter fun l =>
    !(l.reason = reasonIPAddress && strongMatchReason x l.localEntity l.entity = [] &&
      (allowedKeys (groups l.localEntity.ip)).any fun set =>
        sameAsKey connectorID l.localEntity.kind (entityRef l.localEntity) ∉ set ||
          sameAsKey l.connectorID l.entity.kind (entityRef l.entity) ∉ set)

/-- **The pairs of an entity of the connector and an entity of another one that match.** -/
def matchEntityPairs (x : Text) (connectors : List ConnectorRecord) (connectorID : Bytes)
    (entities : List SnapshotEntity) : List EntityLink :=
  if entities = [] then []
  else
    capIPOnlyLinks x (distinctOn (pairKey connectorID) (matchingPairs x connectors connectorID
      entities)) connectorID (ipGroup connectors connectorID entities)

/-! ### Edges of links and of DNS records -/

/-- An edge as it is added; an empty owner stands for the connector that is rebuilt. -/
def ownedEdge (owner : Bytes) (src dst : Endpoint) (kind source detail : Bytes) : TopologyEdge :=
  ⟨owner, src, dst, kind, source, detail⟩

def plainEdge (src dst : Endpoint) (kind source : Bytes) : TopologyEdge :=
  ownedEdge [] src dst kind source []

/-- A connector contains an entity. -/
def containsEdge (connectorID name : Bytes) (e : SnapshotEntity) : TopologyEdge :=
  plainEdge (serviceNode connectorID name) (entityNode connectorID e) topologyEdgeContains []

def Endpoint.sameAsKey (p : Endpoint) : Bytes := Topology.sameAsKey p.connectorID p.kind p.ref

/-- What a link adds: both connectors contain their entities, and these are the same, in a direction
that does not depend on which connector is rebuilt. -/
def linkEdges (self : ConnectorRecord) (l : EntityLink) : List TopologyEdge :=
  let src := entityNode self.id l.localEntity
  let dst := entityNode l.connectorID l.entity
  [containsEdge self.id self.name l.localEntity,
    if dst.sameAsKey < src.sameAsKey then plainEdge dst src topologyEdgeSameAs l.reason
    else plainEdge src dst topologyEdgeSameAs l.reason,
    containsEdge l.connectorID l.connectorName l.entity]

/-- Another connector's latest snapshot. -/
structure OtherSnapshot where
  id : Bytes
  name : Bytes
  snap : ServiceSnapshot

def otherSnapshot (c : ConnectorRecord) : Option OtherSnapshot :=
  match c.latest with
  | .snapshot snap => some ⟨c.id, c.name, snap⟩
  | _ => none

/-- The other connectors' snapshots, by their ids, and the connectors whose snapshot cannot be
read. -/
def loadOtherSnapshots (connectors : List ConnectorRecord) (connectorID : Bytes) :
    List OtherSnapshot × List Bytes :=
  let others := connectors.filter (·.id ≠ connectorID)
  ((others.filterMap otherSnapshot).insertionSort fun a b => ¬ b.id < a.id,
    (others.filter fun c => match c.latest with
      | .unreadable => true
      | _ => false).map (·.id))

def isDNSEntity (kind : Bytes) : Bool := kind = bytes "dns_record" || kind = bytes "dns_rewrite"

/-- A DNS record of `owner` resolves to what it matches. -/
def resolvesToEdge (x : Text) (owner : Bytes) (dns : SnapshotEntity) (dstConnectorID : Bytes)
    (target : SnapshotEntity) : Option TopologyEdge :=
  let reason := matchReason x dns target
  if reason = [] then none
  else
    some (ownedEdge owner (entityNode owner dns) (entityNode dstConnectorID target)
      topologyEdgeResolvesTo reason [])

/-- The edges from the DNS records among `dns` to the other entities among `targets`. -/
def resolvesToEdges (x : Text) (owner : Bytes) (dns : List SnapshotEntity) (dstConnectorID : Bytes)
    (targets : List SnapshotEntity) : List TopologyEdge :=
  (dns.filter fun e => isDNSEntity e.kind).flatMap fun e =>
    (targets.filter fun t => !isDNSEntity t.kind).filterMap fun t =>
      resolvesToEdge x owner e dstConnectorID t

/-- Edges from the connector's DNS records, and edges of the others' records to its entities. -/
def addResolvesToEdges (x : Text) (connectorID : Bytes) (snap : ServiceSnapshot)
    (others : List OtherSnapshot) : List TopologyEdge :=
  (snap.entities.flatMap fun dns => others.flatMap fun o =>
    resolvesToEdges x connectorID [dns] o.id o.snap.entities) ++
  others.flatMap fun o => resolvesToEdges x o.id o.snap.entities connectorID snap.entities

/-! ### Edges of dependencies -/

/-- A declared dependency leads to the best known node. -/
def addDependencyEdge (x : Text) (self : ConnectorRecord) (snap : ServiceSnapshot)
    (all : List ConnectorRecord) (others : List OtherSnapshot) (dep : ServiceDependency) :
    List TopologyEdge :=
  let service := serviceNode self.id self.name
  let dependsOn (dst : Endpoint) := plainEdge service dst topologyEdgeDependency dep.kind
  match (if dep.ref ≠ [] then all.find? fun c => c.id = dep.ref ∧ c.id ≠ self.id else none) with
  | some c => [dependsOn (serviceNode c.id c.name)]
  | none =>
      match snap.entities.find? fun e => x.equalFold e.name dep.name with
      | some e => [dependsOn (entityNode self.id e), containsEdge self.id self.name e]
      | none =>
          match others.findSome? fun o => (o.snap.entities.find? fun e =>
              x.equalFold e.name dep.name ||
                (e.hostname ≠ [] && x.equalFold e.hostname dep.name)).map fun e => (o, e) with
          | some (o, e) => [dependsOn (entityNode o.id e), containsEdge o.id o.name e]
          | none => [dependsOn ⟨self.id, dep.kind, dep.name, []⟩]

/-! ### Edges of hosts and upstreams -/

/-- A host in lower case, without a final dot. -/
def normalizeHost (x : Text) (h : Bytes) : Bytes :=
  let lower := x.toLower (x.trimSpace h)
  if lower.getLast? = some 46 then lower.dropLast else lower

/-- The host and the port that a name declares. -/
def runtimeTargetParts (x : Text) (name : Bytes) : Bytes × Bytes :=
  let raw := x.trimSpace name
  match x.hostPort raw with
  | some parts => parts
  | none =>
      if 64 ∈ raw then (raw, [])
      else (x.hostPort (bytes "//" ++ raw)).getD (raw, [])

/-- An entity that a name resolves to, in the connector's own snapshot or else in those of the
others; `exclude` is the source of the edge. -/
def runtimeTarget (x : Text) (connectorID : Bytes) (snap : ServiceSnapshot)
    (others : List OtherSnapshot) (name kind : Bytes) (exclude : SnapshotEntity) :
    Option (SnapshotEntity × Bytes) :=
  let target := normalizeHost x (runtimeTargetParts x name).1
  let isTarget (sameConnector : Bool) (e : SnapshotEntity) : Bool :=
    !((kind ≠ [] && e.kind ≠ kind) ||
      (sameConnector && e.kind = exclude.kind && entityRef e = entityRef exclude)) &&
    (normalizeHost x e.name = target || normalizeHost x e.hostname = target ||
      normalizeHost x e.ip = target || e.aliases.any fun other => normalizeHost x other = target)
  if target = [] then none
  else
    match snap.entities.find? (isTarget true) with
    | some e => some (e, connectorID)
    | none => others.findSome? fun o => (o.snap.entities.find? (isTarget false)).map fun e => (e, o.id)

/-- The node that a name resolves to, or a placeholder. -/
def runtimeNode (x : Text) (connectorID : Bytes) (snap : ServiceSnapshot)
    (others : List OtherSnapshot) (name kind : Bytes) (exclude : SnapshotEntity)
    (placeholder : Endpoint) : Endpoint :=
  match runtimeTarget x connectorID snap others name kind exclude with
  | some (e, id) => entityNode id e
  | none => placeholder

def isProxySource (kind : Bytes) : Bool :=
  kind = bytes "proxy_host" || kind = bytes "stream" || kind = bytes "router" ||
    kind = bytes "http_route"

/-- An upstream that a proxy declares; a kind restricts what it may lead to. -/
structure ProxyTarget where
  host : Bytes
  port : Bytes
  kind : Bytes

/-- The upstreams that a proxy declares in its attributes. -/
def proxyTargets (x : Text) (e : SnapshotEntity) : List ProxyTarget :=
  let forwarded := [bytes "forward_host", bytes "forwarding_host"].filterMap fun hostKey =>
    (e.stringAttribute hostKey).map fun raw =>
      let port := [bytes "forward_port", bytes "forwarding_port"].findSome? fun portKey =>
        (e.attribute portKey).bind fun v => if v.printed ≠ bytes "0" then some v.printed else none
      ⟨(runtimeTargetParts x raw).1, port.getD (runtimeTargetParts x raw).2, []⟩
  let service := (e.stringAttribute (bytes "service")).map fun raw =>
    ⟨(runtimeTargetParts x raw).1, (runtimeTargetParts x raw).2, bytes "service"⟩
  let upstreams := (e.stringAttribute (bytes "upstream")).map fun raw =>
    (raw.splitOn 44).map fun dial =>
      ⟨(runtimeTargetParts x dial).1, (runtimeTargetParts x dial).2, []⟩
  forwarded ++ service.toList ++ upstreams.getD []

/-- Each proxy whose declared upstream is the dependency forwards to it. -/
def addProxyEdges (x : Text) (connectorID : Bytes) (snap : ServiceSnapshot)
    (others : List OtherSnapshot) (dep : ServiceDependency) : List TopologyEdge :=
  let depHost := normalizeHost x (runtimeTargetParts x dep.name).1
  let depPort := (runtimeTargetParts x dep.name).2
  if depHost = [] then []
  else
    (snap.entities.filter fun e => isProxySource e.kind).filterMap fun e =>
      ((proxyTargets x e).find? fun t => normalizeHost x t.host = depHost).map fun t =>
        ownedEdge [] (entityNode connectorID e)
          (runtimeNode x connectorID snap others dep.name t.kind e
            ⟨connectorID, bytes "upstream_service", dep.name, []⟩)
          topologyEdgeProxiesTo (bytes "configured upstream")
          (if t.port = [] then depPort else t.port)

/-- Containers and machines run on the connector's hosts. -/
def addHostEdges (x : Text) (connectorID : Bytes) (snap : ServiceSnapshot)
    (others : List OtherSnapshot) (dep : ServiceDependency) : List TopologyEdge :=
  (snap.entities.filter fun e => (e.kind = bytes "container" || e.kind = bytes "vm") &&
    (e.attribute (bytes "environment")).isNone &&
    (e.stringAttribute (bytes "node")).all (· = dep.name)).map fun e =>
      plainEdge (entityNode connectorID e)
        (runtimeNode x connectorID snap others dep.name [] e ⟨connectorID, bytes "host", dep.name, []⟩)
        topologyEdgeRunsOn (bytes "connector host")

/-- A container runs on the environment that it names. -/
def addEnvironmentEdges (x : Text) (connectorID : Bytes) (snap : ServiceSnapshot)
    (others : List OtherSnapshot) : List TopologyEdge :=
  (snap.entities.filter fun e => e.kind = bytes "container").filterMap fun e =>
    ((e.stringAttribute (bytes "environment")).filter (· ≠ [])).map fun raw =>
      plainEdge (entityNode connectorID e)
        (runtimeNode x connectorID snap others raw [] e ⟨connectorID, bytes "environment", raw, raw⟩)
        topologyEdgeRunsOn (bytes "Portainer environment")

def addRuntimeEdges (x : Text) (connectorID : Bytes) (snap : ServiceSnapshot)
    (others : List OtherSnapshot) : List TopologyEdge :=
  addEnvironmentEdges x connectorID snap others ++ snap.dependencies.flatMap fun dep =>
    if dep.kind = bytes "upstream_service" then addProxyEdges x connectorID snap others dep
    else if dep.kind = bytes "host" then addHostEdges x connectorID snap others dep
    else []

/-! ### All edges -/

/-- What tells the edges of one rebuild apart. -/
def builderKey (e : TopologyEdge) : Bytes :=
  joinWith 0 [e.connectorID, e.src.connectorID, e.src.kind, e.src.name, e.src.ref, e.dst.connectorID,
    e.dst.kind, e.dst.name, e.dst.ref, e.kind, e.source, e.detail]

/-- The edges that a rebuild adds, one after the other. -/
def addedEdges (x : Text) (connectors : List ConnectorRecord) (self : ConnectorRecord)
    (snap : ServiceSnapshot) : List TopologyEdge :=
  let others := (loadOtherSnapshots connectors self.id).1
  (matchEntityPairs x connectors self.id snap.entities).flatMap (linkEdges self) ++
    addResolvesToEdges x self.id snap others ++
    ((snap.dependencies.filter fun dep => x.trimSpace dep.name ≠ []).flatMap
      (addDependencyEdge x self snap connectors others)) ++
    addRuntimeEdges x self.id snap others

/-- **The edges that a rebuild of a connector derives**, each once. -/
def topologyEdges (x : Text) (connectors : List ConnectorRecord) (self : ConnectorRecord)
    (snap : ServiceSnapshot) : List TopologyEdge :=
  distinctOn builderKey (addedEdges x connectors self snap)

end WiseLabz.Topology
