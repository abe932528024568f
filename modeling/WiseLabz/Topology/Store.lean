/-
**The table of edges.**

A rebuild of a connector replaces the edges that it affects: those it owns, those that say that an
entity of it is the same as another one, and those by which a DNS record resolves to one of its
entities.  Rows of an edge that is inserted are deleted first, whoever owns them.

Main definitions:

* `Topology.LogicalEdge`, `Topology.TopologyEdge.logical` — what identifies an edge;
* `Topology.canonicalTopologyEdge` — an edge with its direction and its owner;
* `Topology.replaceTopologyEdgesPreserving` — the transaction;
* `Topology.rebuildTopologyForConnector` — **a rebuild**.
-/

import WiseLabz.Topology.Edges

set_option relaxedAutoImplicit false
set_option autoImplicit false

namespace WiseLabz.Topology

open Lib

/-- A stored edge. -/
structure TopologyRow where
  id : Bytes
  edge : TopologyEdge
  createdAt : Bytes

/-- The reference that identifies a node: its name, if it has none. -/
def Endpoint.logicalRef (p : Endpoint) : Bytes := if p.ref = [] then p.name else p.ref

/-- The columns that identify an edge. -/
structure LogicalEdge where
  srcConnectorID : Bytes
  srcKind : Bytes
  srcRef : Bytes
  dstConnectorID : Bytes
  dstKind : Bytes
  dstRef : Bytes
  kind : Bytes
  source : Bytes
  detail : Bytes
  deriving DecidableEq, Repr

def TopologyEdge.logical (e : TopologyEdge) : LogicalEdge :=
  ⟨e.src.connectorID, e.src.kind, e.src.logicalRef, e.dst.connectorID, e.dst.kind, e.dst.logicalRef,
    e.kind, e.source, e.detail⟩

/-- The same columns, joined. -/
def topologyLogicalEdgeKey (e : TopologyEdge) : Bytes :=
  joinWith 0 [e.src.connectorID, e.src.kind, e.src.logicalRef, e.dst.connectorID, e.dst.kind,
    e.dst.logicalRef, e.kind, e.source, e.detail]

/-- Entities that are the same are stored in one direction, under the connector of the first. -/
def canonicalTopologyEdge (defaultOwner : Bytes) (e : TopologyEdge) : TopologyEdge :=
  let e := if e.kind = topologyEdgeSameAs ∧ e.dst.sameAsKey < e.src.sameAsKey then
      { e with src := e.dst, dst := e.src }
    else e
  let e := if e.connectorID = [] then { e with connectorID := defaultOwner } else e
  if e.kind = topologyEdgeSameAs then { e with connectorID := e.src.connectorID } else e

/-- The edges that a rebuild of a connector deletes: edges of `preserveOwners` are kept if they are
only deleted for where they lead. -/
def topologyEdgesAffectedBy (connectorID : Bytes) (preserveOwners : List Bytes) (e : TopologyEdge) :
    Bool :=
  e.connectorID = connectorID ||
    (e.kind = topologyEdgeSameAs &&
      (e.src.connectorID = connectorID || e.dst.connectorID = connectorID)) ||
    (e.kind = topologyEdgeResolvesTo && e.dst.connectorID = connectorID &&
      e.connectorID ∉ preserveOwners)

/-- The edges to insert, each logical edge once. -/
def preparedEdges (connectorID : Bytes) (edges : List TopologyEdge) : List TopologyEdge :=
  distinctOn topologyLogicalEdgeKey (edges.map (canonicalTopologyEdge connectorID))

/-- **The transaction**; `newID` are the row ids that are generated. -/
def replaceTopologyEdgesPreserving (table : List TopologyRow) (connectorID : Bytes)
    (edges : List TopologyEdge) (preserveOwners : List Bytes) (newID : ℕ → Bytes) (now : Bytes) :
    List TopologyRow :=
  let prepared := preparedEdges connectorID edges
  let kept := (table.filter fun r => !topologyEdgesAffectedBy connectorID preserveOwners r.edge).filter
    fun r => r.edge.logical ∉ prepared.map TopologyEdge.logical
  kept ++ prepared.mapIdx fun i e => ⟨newID i, e, now⟩

/-- **A rebuild**: without a snapshot the connector loses its edges, and with one that cannot be read
nothing changes. -/
def rebuildTopologyForConnector (x : Text) (connectors : List ConnectorRecord)
    (table : List TopologyRow) (connectorID : Bytes) (newID : ℕ → Bytes) (now : Bytes) :
    List TopologyRow :=
  match connectors.find? (·.id = connectorID) with
  | none => table
  | some self =>
      match self.latest with
      | .missing => replaceTopologyEdgesPreserving table connectorID [] [] newID now
      | .unreadable => table
      | .snapshot snap =>
          replaceTopologyEdgesPreserving table connectorID (topologyEdges x connectors self snap)
            (loadOtherSnapshots connectors connectorID).2 newID now

end WiseLabz.Topology
