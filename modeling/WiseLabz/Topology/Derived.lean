/-
**What rebuilds derive.**

Edges that say that entities are the same, and edges from DNS records, are derived by the rebuilds
of both connectors; every other edge that a rebuild deletes is its own.  So a rebuild derives again
what it deletes of others' edges, and rebuilds agree on the edges that several of them derive.

Main definitions:

* `Topology.derivedEdges`, `Topology.topologyRebuild` — what a rebuild inserts and affects;
* `Topology.OwnEdge`, `Topology.SharedEdge` — edges of one connector only, and all others.

Main results:

* `Topology.added_cases` — the edges that a rebuild adds;
* `Topology.rederived`, `Topology.agree` — **a rebuild derives again what it deletes, and rebuilds
  agree**.
-/

import WiseLabz.Topology.Links
import WiseLabz.Lib.Rebuild

set_option relaxedAutoImplicit false
set_option autoImplicit false

namespace WiseLabz.Topology

open Lib

/-! ### What a rebuild inserts -/

/-- The edges that a rebuild inserts. -/
def derivedEdges (x : Text) (connectors : List ConnectorRecord) (connectorID : Bytes) :
    List TopologyEdge :=
  match connectors.find? (·.id = connectorID) with
  | none => []
  | some self =>
      match self.latest with
      | .snapshot snap => preparedEdges connectorID (topologyEdges x connectors self snap)
      | _ => []

/-- An edge without its owner. -/
def TopologyEdge.content (e : TopologyEdge) : TopologyEdge := { e with connectorID := [] }

/-- What the connectors derive and affect. -/
def topologyRebuild (x : Text) (connectors : List ConnectorRecord) :
    Rebuild TopologyEdge Bytes LogicalEdge TopologyEdge where
  key := TopologyEdge.logical
  content := TopologyEdge.content
  affected p e := (connectors.any fun c => c.id = p) && topologyEdgesAffectedBy p [] e
  derived := derivedEdges x connectors

section Rebuild

variable {x : Text} {connectors : List ConnectorRecord}

theorem topologyRebuild_key : (topologyRebuild x connectors).key = TopologyEdge.logical := rfl

theorem topologyRebuild_derived :
    (topologyRebuild x connectors).derived = derivedEdges x connectors := rfl

theorem topologyRebuild_affected (p : Bytes) (e : TopologyEdge) :
    (topologyRebuild x connectors).affected p e =
      ((connectors.any fun c => c.id = p) && topologyEdgesAffectedBy p [] e) := rfl

theorem derivedEdges_of_mem (hlab : ReadableLab connectors) {c : ConnectorRecord}
    (hc : c ∈ connectors) {snap : ServiceSnapshot} (hsnap : c.latest = .snapshot snap) :
    derivedEdges x connectors c.id = preparedEdges c.id (topologyEdges x connectors c snap) := by
  have hfind : connectors.find? (fun d => d.id = c.id) = some c := hlab.ids.lookup_of_mem hc
  rw [derivedEdges, hfind]
  simp only [hsnap]

/-- An inserted edge is one that was added, in its direction and with its owner. -/
theorem exists_added {p : Bytes} {e : TopologyEdge} (he : e ∈ derivedEdges x connectors p) :
    ∃ c ∈ connectors, c.id = p ∧ ∃ snap, c.latest = .snapshot snap ∧
      ∃ a ∈ addedEdges x connectors c snap, e = canonicalTopologyEdge p a := by
  rw [derivedEdges] at he
  cases hfind : connectors.find? (·.id = p) with
  | none =>
      rw [hfind] at he
      cases he
  | some c =>
      have hid : c.id = p := by simpa using List.find?_some hfind
      rw [hfind] at he
      cases hsnap : c.latest with
      | snapshot snap =>
          simp only [hsnap] at he
          obtain ⟨a, ha, rfl⟩ := List.mem_map.1 (mem_of_mem_distinctOn he)
          exact ⟨c, List.mem_of_find?_eq_some hfind, hid, snap, hsnap, a, mem_of_mem_distinctOn ha,
            rfl⟩
      | missing =>
          simp only [hsnap] at he
          cases he
      | unreadable =>
          simp only [hsnap] at he
          cases he

theorem derivedEdges_nodup (p : Bytes) :
    ((derivedEdges x connectors p).map TopologyEdge.logical).Nodup := by
  rw [derivedEdges]
  split
  · exact List.nodup_nil
  · split
    · -- edges with one logical edge have one joined key
      refine List.Nodup.of_map (fun l : LogicalEdge => joinWith 0 [l.srcConnectorID, l.srcKind, l.srcRef,
        l.dstConnectorID, l.dstKind, l.dstRef, l.kind, l.source, l.detail]) ?_
      rw [List.map_map]
      exact (distinctOn_nodup _ : KeyNodup topologyLogicalEdgeKey _)
    · exact List.nodup_nil

/-! ### The edges that a rebuild adds -/

/-- An edge that only a rebuild of `p` derives. -/
def OwnEdge (p : Bytes) (e : TopologyEdge) : Prop :=
  e.connectorID = [] ∧ e.src.connectorID = p ∧
    (e.kind = topologyEdgeDependency ∨ e.kind = topologyEdgeProxiesTo ∨ e.kind = topologyEdgeRunsOn)

/-- A connector contains one of its entities. -/
def IsContains (connectors : List ConnectorRecord) (e : TopologyEdge) : Prop :=
  ∃ d ∈ connectors, ∃ b ∈ d.entities, e = containsEdge d.id d.name b

/-- The edge of two entities that are the same. -/
def sameAsEdge (x : Text) (c : ConnectorRecord) (a : SnapshotEntity) (d : ConnectorRecord)
    (b : SnapshotEntity) : TopologyEdge :=
  if (entityNode d.id b).sameAsKey < (entityNode c.id a).sameAsKey then
    plainEdge (entityNode d.id b) (entityNode c.id a) topologyEdgeSameAs (matchReason x a b)
  else plainEdge (entityNode c.id a) (entityNode d.id b) topologyEdgeSameAs (matchReason x a b)

/-- An edge of a DNS record of `d` to an entity of `d'`. -/
structure IsResolvesTo (x : Text) (connectors : List ConnectorRecord) (d d' : ConnectorRecord)
    (e : TopologyEdge) : Prop where
  left : d ∈ connectors
  right : d' ∈ connectors
  distinct : d.id ≠ d'.id
  edge : ∃ dns ∈ d.entities, isDNSEntity dns.kind = true ∧ ∃ target ∈ d'.entities,
    isDNSEntity target.kind = false ∧ resolvesToEdge x d.id dns d'.id target = some e

theorem entities_of_snapshot {c : ConnectorRecord} {snap : ServiceSnapshot}
    (h : c.latest = .snapshot snap) : c.entities = snap.entities := by
  rw [ConnectorRecord.entities, h]

/-- A connector with an entity has a snapshot. -/
theorem exists_snapshot {d : ConnectorRecord} {b : SnapshotEntity} (hb : b ∈ d.entities) :
    ∃ snap, d.latest = .snapshot snap := by
  rw [ConnectorRecord.entities] at hb
  cases hlatest : d.latest with
  | snapshot snap => exact ⟨snap, rfl⟩
  | missing =>
      rw [hlatest] at hb
      cases hb
  | unreadable =>
      rw [hlatest] at hb
      cases hb

/-- The others' snapshots. -/
theorem mem_loadOtherSnapshots {p : Bytes} {o : OtherSnapshot} :
    o ∈ (loadOtherSnapshots connectors p).1 ↔
      ∃ d ∈ connectors, d.id ≠ p ∧ ∃ snap, d.latest = .snapshot snap ∧ o = ⟨d.id, d.name, snap⟩ := by
  rw [loadOtherSnapshots, List.mem_insertionSort, List.mem_filterMap]
  constructor
  · rintro ⟨d, hd, ho⟩
    obtain ⟨hmem, hne⟩ := List.mem_filter.1 hd
    rw [otherSnapshot] at ho
    split at ho
    · next snap hsnap =>
        exact ⟨d, hmem, of_decide_eq_true hne, snap, hsnap, (Option.some.inj ho).symm⟩
    · cases ho
  · rintro ⟨d, hd, hne, snap, hsnap, rfl⟩
    refine ⟨d, List.mem_filter.2 ⟨hd, decide_eq_true hne⟩, ?_⟩
    rw [otherSnapshot, hsnap]

theorem mem_resolvesToEdges {owner dst : Bytes} {dns targets : List SnapshotEntity}
    {e : TopologyEdge} :
    e ∈ resolvesToEdges x owner dns dst targets ↔
      ∃ r ∈ dns, isDNSEntity r.kind = true ∧ ∃ t ∈ targets, isDNSEntity t.kind = false ∧
        resolvesToEdge x owner r dst t = some e := by
  simp [resolvesToEdges, and_assoc]

/-- **The edges from DNS records**: from the connector's records, and to its entities. -/
theorem mem_addResolvesToEdges {c : ConnectorRecord} (hc : c ∈ connectors) {snap : ServiceSnapshot}
    (hsnap : c.latest = .snapshot snap) {e : TopologyEdge} :
    e ∈ addResolvesToEdges x c.id snap (loadOtherSnapshots connectors c.id).1 ↔
      ∃ d, IsResolvesTo x connectors c d e ∨ IsResolvesTo x connectors d c e := by
  have hentities := entities_of_snapshot hsnap
  rw [addResolvesToEdges, List.mem_append]
  constructor
  · rintro (h | h)
    · obtain ⟨dns, hdns, h⟩ := List.mem_flatMap.1 h
      obtain ⟨o, ho, h⟩ := List.mem_flatMap.1 h
      obtain ⟨d, hd, hne, osnap, hosnap, rfl⟩ := mem_loadOtherSnapshots.1 ho
      obtain ⟨r, hr, hrkind, t, ht, htkind, hedge⟩ := mem_resolvesToEdges.1 h
      obtain rfl := List.mem_singleton.1 hr
      exact ⟨d, Or.inl ⟨hc, hd, hne.symm, r, hentities ▸ hdns, hrkind, t,
        entities_of_snapshot hosnap ▸ ht, htkind, hedge⟩⟩
    · obtain ⟨o, ho, h⟩ := List.mem_flatMap.1 h
      obtain ⟨d, hd, hne, osnap, hosnap, rfl⟩ := mem_loadOtherSnapshots.1 ho
      obtain ⟨r, hr, hrkind, t, ht, htkind, hedge⟩ := mem_resolvesToEdges.1 h
      exact ⟨d, Or.inr ⟨hd, hc, hne, r, entities_of_snapshot hosnap ▸ hr, hrkind, t,
        hentities ▸ ht, htkind, hedge⟩⟩
  · rintro ⟨d, ⟨-, hd, hne, r, hr, hrkind, t, ht, htkind, hedge⟩ |
      ⟨hd, -, hne, r, hr, hrkind, t, ht, htkind, hedge⟩⟩
    · obtain ⟨s, hs⟩ := exists_snapshot ht
      refine Or.inl (List.mem_flatMap.2 ⟨r, hentities ▸ hr, List.mem_flatMap.2 ⟨⟨d.id, d.name, s⟩, ?_,
        mem_resolvesToEdges.2 ⟨r, List.mem_singleton.2 rfl, hrkind, t, ?_, htkind, hedge⟩⟩⟩)
      · exact mem_loadOtherSnapshots.2 ⟨d, hd, hne.symm, s, hs, rfl⟩
      · exact entities_of_snapshot hs ▸ ht
    · obtain ⟨s, hs⟩ := exists_snapshot hr
      refine Or.inr (List.mem_flatMap.2 ⟨⟨d.id, d.name, s⟩, ?_,
        mem_resolvesToEdges.2 ⟨r, ?_, hrkind, t, hentities ▸ ht, htkind, hedge⟩⟩)
      · exact mem_loadOtherSnapshots.2 ⟨d, hd, hne, s, hs, rfl⟩
      · exact entities_of_snapshot hs ▸ hr

/-- The edges of a dependency. -/
theorem addDependencyEdge_cases {c : ConnectorRecord} (hc : c ∈ connectors) {snap : ServiceSnapshot}
    (hsnap : c.latest = .snapshot snap) {dep : ServiceDependency} {e : TopologyEdge}
    (he : e ∈ addDependencyEdge x c snap connectors (loadOtherSnapshots connectors c.id).1 dep) :
    OwnEdge c.id e ∨ IsContains connectors e := by
  have hown : ∀ dst, OwnEdge c.id (plainEdge (serviceNode c.id c.name) dst topologyEdgeDependency
      dep.kind) := fun _ => ⟨rfl, rfl, Or.inl rfl⟩
  rw [addDependencyEdge] at he
  split at he
  · rw [List.mem_singleton.1 he]
    exact Or.inl (hown _)
  · split at he
    · next b hb =>
        have hmem : b ∈ c.entities := entities_of_snapshot hsnap ▸ List.mem_of_find?_eq_some hb
        rcases List.mem_cons.1 he with rfl | he
        · exact Or.inl (hown _)
        · rw [List.mem_singleton.1 he]
          exact Or.inr ⟨c, hc, b, hmem, rfl⟩
    · split at he
      · next o b hfound =>
          obtain ⟨o', ho, hfind⟩ := List.exists_of_findSome?_eq_some hfound
          obtain ⟨b', hb, hpair⟩ := Option.map_eq_some_iff.1 hfind
          obtain ⟨rfl, rfl⟩ := Prod.mk.inj hpair
          obtain ⟨d, hd, -, osnap, hosnap, rfl⟩ := mem_loadOtherSnapshots.1 ho
          have hmem : b' ∈ d.entities :=
            entities_of_snapshot hosnap ▸ List.mem_of_find?_eq_some hb
          rcases List.mem_cons.1 he with rfl | he
          · exact Or.inl (hown _)
          · rw [List.mem_singleton.1 he]
            exact Or.inr ⟨d, hd, b', hmem, rfl⟩
      · rw [List.mem_singleton.1 he]
        exact Or.inl (hown _)

/-- The edges to hosts and upstreams. -/
theorem addRuntimeEdges_own {p : Bytes} {snap : ServiceSnapshot} {others : List OtherSnapshot}
    {e : TopologyEdge} (he : e ∈ addRuntimeEdges x p snap others) : OwnEdge p e := by
  rw [addRuntimeEdges, List.mem_append] at he
  rcases he with he | he
  · obtain ⟨a, -, he⟩ := List.mem_filterMap.1 he
    obtain ⟨raw, -, rfl⟩ := Option.map_eq_some_iff.1 he
    exact ⟨rfl, rfl, Or.inr (Or.inr rfl)⟩
  · obtain ⟨dep, -, he⟩ := List.mem_flatMap.1 he
    split at he
    · rw [addProxyEdges] at he
      split at he
      · cases he
      · obtain ⟨a, -, he⟩ := List.mem_filterMap.1 he
        obtain ⟨t, -, rfl⟩ := Option.map_eq_some_iff.1 he
        exact ⟨rfl, rfl, Or.inr (Or.inl rfl)⟩
    · split at he
      · obtain ⟨a, -, rfl⟩ := List.mem_map.1 he
        exact ⟨rfl, rfl, Or.inr (Or.inr rfl)⟩
      · cases he

/-- **The edges that a rebuild adds.** -/
theorem added_cases (hlab : ReadableLab connectors) (hkeys : KeysTell x connectors)
    {c : ConnectorRecord} (hc : c ∈ connectors) {snap : ServiceSnapshot}
    (hsnap : c.latest = .snapshot snap) {e : TopologyEdge}
    (he : e ∈ addedEdges x connectors c snap) :
    OwnEdge c.id e ∨ IsContains connectors e ∨
      (∃ a d b, Linked x connectors c a d b ∧ e = sameAsEdge x c a d b) ∨
      ∃ d, IsResolvesTo x connectors c d e ∨ IsResolvesTo x connectors d c e := by
  rw [addedEdges, List.mem_append, List.mem_append, List.mem_append] at he
  rcases he with ((he | he) | he) | he
  · obtain ⟨l, hl, he⟩ := List.mem_flatMap.1 he
    rw [← entities_of_snapshot hsnap, mem_matchEntityPairs hlab hkeys hc] at hl
    obtain ⟨a, d, b, hlinked, rfl⟩ := hl
    simp only [linkEdges, List.mem_cons, List.not_mem_nil, or_false] at he
    rcases he with rfl | rfl | rfl
    · exact Or.inr (Or.inl ⟨c, hc, a, hlinked.left.2, rfl⟩)
    · exact Or.inr (Or.inr (Or.inl ⟨a, d, b, hlinked, rfl⟩))
    · exact Or.inr (Or.inl ⟨d, hlinked.right.1, b, hlinked.right.2, rfl⟩)
  · exact Or.inr (Or.inr (Or.inr ((mem_addResolvesToEdges hc hsnap).1 he)))
  · obtain ⟨dep, -, he⟩ := List.mem_flatMap.1 he
    rcases addDependencyEdge_cases hc hsnap he with hown | hcontains
    · exact Or.inl hown
    · exact Or.inr (Or.inl hcontains)
  · exact Or.inl (addRuntimeEdges_own he)

/-! ### Keys that tell -/

/-- No text of a node has a NUL byte. -/
structure CleanNode (n : Endpoint) : Prop where
  connectorID : 0 ∉ n.connectorID
  kind : 0 ∉ n.kind
  name : 0 ∉ n.name
  ref : 0 ∉ n.ref

/-- No text of an edge has a NUL byte. -/
structure CleanEdge (e : TopologyEdge) : Prop where
  owner : 0 ∉ e.connectorID
  src : CleanNode e.src
  dst : CleanNode e.dst
  kind : 0 ∉ e.kind
  source : 0 ∉ e.source
  detail : 0 ∉ e.detail

theorem CleanNode.logicalRef {n : Endpoint} (h : CleanNode n) : 0 ∉ n.logicalRef := by
  rw [Endpoint.logicalRef]
  split
  · exact h.name
  · exact h.ref

theorem builderKey_inj {e e' : TopologyEdge} (h : CleanEdge e) (hkey : builderKey e = builderKey e') :
    e = e' := by
  have hparts := joinWith_inj hkey (by simp [h.owner, h.src.connectorID, h.src.kind, h.src.name,
    h.src.ref, h.dst.connectorID, h.dst.kind, h.dst.name, h.dst.ref, h.kind, h.source, h.detail]) rfl
  obtain ⟨owner, ⟨sc, sk, sn, sr⟩, ⟨dc, dk, dn, dr⟩, kind, source, detail⟩ := e
  obtain ⟨owner', ⟨sc', sk', sn', sr'⟩, ⟨dc', dk', dn', dr'⟩, kind', source', detail'⟩ := e'
  simp only [List.cons.injEq, and_true] at hparts
  obtain ⟨rfl, rfl, rfl, rfl, rfl, rfl, rfl, rfl, rfl, rfl, rfl, rfl⟩ := hparts
  rfl

theorem logical_eq_of_key {e e' : TopologyEdge} (hsrc : CleanNode e.src) (hdst : CleanNode e.dst)
    (hkind : 0 ∉ e.kind) (hsource : 0 ∉ e.source) (hdetail : 0 ∉ e.detail)
    (hkey : topologyLogicalEdgeKey e = topologyLogicalEdgeKey e') : e.logical = e'.logical := by
  have hparts := joinWith_inj hkey (by simp [hsrc.connectorID, hsrc.kind, hsrc.logicalRef,
    hdst.connectorID, hdst.kind, hdst.logicalRef, hkind, hsource, hdetail]) rfl
  simp only [List.cons.injEq, and_true] at hparts
  obtain ⟨h₁, h₂, h₃, h₄, h₅, h₆, h₇, h₈, h₉⟩ := hparts
  simp only [TopologyEdge.logical, h₁, h₂, h₃, h₄, h₅, h₆, h₇, h₈, h₉]

/-- What the canonical form keeps. -/
theorem canonicalTopologyEdge_content (p : Bytes) (e : TopologyEdge) :
    (canonicalTopologyEdge p e).kind = e.kind ∧ (canonicalTopologyEdge p e).source = e.source ∧
      (canonicalTopologyEdge p e).detail = e.detail ∧
      (((canonicalTopologyEdge p e).src = e.src ∧ (canonicalTopologyEdge p e).dst = e.dst) ∨
        (e.kind = topologyEdgeSameAs ∧ (canonicalTopologyEdge p e).src = e.dst ∧
          (canonicalTopologyEdge p e).dst = e.src)) := by
  unfold canonicalTopologyEdge
  by_cases hswap : e.kind = topologyEdgeSameAs ∧ e.dst.sameAsKey < e.src.sameAsKey
  · simp only [if_pos hswap]
    split <;> split <;> exact ⟨rfl, rfl, rfl, Or.inr ⟨hswap.1, rfl, rfl⟩⟩
  · simp only [if_neg hswap]
    split <;> split <;> exact ⟨rfl, rfl, rfl, Or.inl ⟨rfl, rfl⟩⟩

/-- **An edge that is added is inserted**, up to its owner. -/
theorem exists_derived (hlab : ReadableLab connectors) {c : ConnectorRecord} (hc : c ∈ connectors)
    {snap : ServiceSnapshot} (hsnap : c.latest = .snapshot snap) {a : TopologyEdge}
    (ha : a ∈ addedEdges x connectors c snap) (hclean : CleanEdge a) :
    (canonicalTopologyEdge c.id a).logical ∈
      (derivedEdges x connectors c.id).map TopologyEdge.logical := by
  obtain ⟨a', ha', hkey⟩ : ∃ a' ∈ topologyEdges x connectors c snap, builderKey a' = builderKey a :=
    exists_mem_distinctOn ha
  obtain rfl := builderKey_inj hclean hkey.symm
  obtain ⟨e, he, hekey⟩ : ∃ e ∈ preparedEdges c.id (topologyEdges x connectors c snap),
      topologyLogicalEdgeKey e = topologyLogicalEdgeKey (canonicalTopologyEdge c.id a) :=
    exists_mem_distinctOn (List.mem_map_of_mem ha')
  obtain ⟨hkind, hsource, hdetail, hends⟩ := canonicalTopologyEdge_content c.id a
  have hnodes : CleanNode (canonicalTopologyEdge c.id a).src ∧
      CleanNode (canonicalTopologyEdge c.id a).dst := by
    rcases hends with ⟨hs, hd⟩ | ⟨-, hs, hd⟩
    · rw [hs, hd]
      exact ⟨hclean.src, hclean.dst⟩
    · rw [hs, hd]
      exact ⟨hclean.dst, hclean.src⟩
  rw [logical_eq_of_key hnodes.1 hnodes.2 (hkind ▸ hclean.kind) (hsource ▸ hclean.source)
    (hdetail ▸ hclean.detail) hekey.symm, derivedEdges_of_mem hlab hc hsnap]
  exact List.mem_map_of_mem he

/-! ### Rebuilds derive again what they delete -/

theorem canonicalTopologyEdge_logical (p q : Bytes) (e : TopologyEdge) :
    (canonicalTopologyEdge p e).logical = (canonicalTopologyEdge q e).logical := by
  unfold canonicalTopologyEdge
  by_cases hswap : e.kind = topologyEdgeSameAs ∧ e.dst.sameAsKey < e.src.sameAsKey
  · simp only [if_pos hswap]
    split <;> split <;> rfl
  · simp only [if_neg hswap]
    split <;> split <;> rfl

/-- The owner of an inserted edge. -/
theorem canonicalTopologyEdge_owner (p : Bytes) (e : TopologyEdge) :
    (canonicalTopologyEdge p e).connectorID =
      if e.kind = topologyEdgeSameAs then (canonicalTopologyEdge p e).src.connectorID
      else if e.connectorID = [] then p else e.connectorID := by
  unfold canonicalTopologyEdge
  by_cases hswap : e.kind = topologyEdgeSameAs ∧ e.dst.sameAsKey < e.src.sameAsKey
  · simp only [if_pos hswap, if_pos hswap.1]
    split <;> simp only [if_pos hswap.1]
  · simp only [if_neg hswap]
    by_cases hsame : e.kind = topologyEdgeSameAs
    · simp only [if_pos hsame]
      split <;> rfl
    · simp only [if_neg hsame]
      split <;> rfl

theorem affected_cases {q : Bytes} {e : TopologyEdge}
    (h : topologyEdgesAffectedBy q [] e = true) :
    e.connectorID = q ∨
      (e.kind = topologyEdgeSameAs ∧ (e.src.connectorID = q ∨ e.dst.connectorID = q)) ∨
      (e.kind = topologyEdgeResolvesTo ∧ e.dst.connectorID = q) := by
  simpa [topologyEdgesAffectedBy, or_assoc] using h

/-- An edge that is neither between same entities nor from a DNS record, added without an owner, is
only affected by the rebuild that added it. -/
theorem affected_plain {p q : Bytes} {a : TopologyEdge} (howner : a.connectorID = [])
    (hsame : a.kind ≠ topologyEdgeSameAs) (hresolves : a.kind ≠ topologyEdgeResolvesTo)
    (h : topologyEdgesAffectedBy q [] (canonicalTopologyEdge p a) = true) : q = p := by
  obtain ⟨hkind, -, -, -⟩ := canonicalTopologyEdge_content p a
  rcases affected_cases h with h | ⟨h, -⟩ | ⟨h, -⟩
  · rw [canonicalTopologyEdge_owner, if_neg hsame, if_pos howner] at h
    exact h.symm
  · exact absurd (hkind.symm.trans h) hsame
  · exact absurd (hkind.symm.trans h) hresolves

theorem contains_ne : topologyEdgeContains ≠ topologyEdgeSameAs ∧
    topologyEdgeContains ≠ topologyEdgeResolvesTo := by
  decide

theorem resolvesTo_ne : topologyEdgeResolvesTo ≠ topologyEdgeSameAs := by decide

theorem OwnEdge.kinds {p : Bytes} {e : TopologyEdge} (h : OwnEdge p e) :
    e.kind ≠ topologyEdgeSameAs ∧ e.kind ≠ topologyEdgeResolvesTo ∧
      e.kind ≠ topologyEdgeContains := by
  obtain ⟨-, -, h | h | h⟩ := h
  · rw [h]
    decide
  · rw [h]
    decide
  · rw [h]
    decide

section Shared

variable (hlab : ReadableLab connectors) (hkeys : KeysTell x connectors)

include hkeys in
theorem cleanNode_entity {c : ConnectorRecord} (hc : c ∈ connectors) {e : SnapshotEntity}
    (he : e ∈ c.entities) : CleanNode (entityNode c.id e) := by
  obtain ⟨hkind, hname, hexternal⟩ := hkeys.entity c hc e he
  refine ⟨(hkeys.id c hc).1, hkind, hname, ?_⟩
  rw [entityNode, entityRef]
  split
  · exact hexternal
  · exact hname

theorem clean_kinds : 0 ∉ topologyEdgeSameAs ∧ 0 ∉ topologyEdgeResolvesTo := by decide

theorem clean_matchReason (a b : SnapshotEntity) : 0 ∉ matchReason x a b := by
  have hstrong : 0 ∉ strongMatchReason x a b := by
    rw [strongMatchReason]
    split
    · decide
    · split
      · decide
      · decide
  rw [matchReason]
  split
  · exact hstrong
  · split
    · decide
    · exact hstrong

include hkeys in
/-- **The edge of two entities that are the same does not depend on the side.** -/
theorem sameAsEdge_comm {c d : ConnectorRecord} {a b : SnapshotEntity}
    (h : Linked x connectors c a d b) : sameAsEdge x c a d b = sameAsEdge x d b c a := by
  have hne : (entityNode c.id a).sameAsKey ≠ (entityNode d.id b).sameAsKey := fun heq =>
    h.distinct (append_cons_inj (hkeys.id c h.left.1).1 (hkeys.id d h.right.1).1 heq).1
  rw [sameAsEdge, sameAsEdge, matchReason_comm x b a]
  by_cases hlt : (entityNode d.id b).sameAsKey < (entityNode c.id a).sameAsKey
  · rw [if_pos hlt, if_neg (List.lt_asymm hlt)]
  · have hlt' : (entityNode c.id a).sameAsKey < (entityNode d.id b).sameAsKey := by
      by_contra hge
      exact hne (List.le_antisymm hlt hge)
    rw [if_neg hlt, if_pos hlt']

include hkeys in
theorem clean_sameAsEdge {c d : ConnectorRecord} {a b : SnapshotEntity}
    (h : Linked x connectors c a d b) : CleanEdge (sameAsEdge x c a d b) := by
  have hc := cleanNode_entity hkeys h.left.1 h.left.2
  have hd := cleanNode_entity hkeys h.right.1 h.right.2
  rw [sameAsEdge]
  split
  · exact ⟨List.not_mem_nil, hd, hc, clean_kinds.1, clean_matchReason a b, List.not_mem_nil⟩
  · exact ⟨List.not_mem_nil, hc, hd, clean_kinds.1, clean_matchReason a b, List.not_mem_nil⟩

/-- The ends of an edge between same entities. -/
theorem sameAsEdge_ends {c d : ConnectorRecord} {a b : SnapshotEntity} (p : Bytes) :
    ∀ n, (n = (canonicalTopologyEdge p (sameAsEdge x c a d b)).src ∨
      n = (canonicalTopologyEdge p (sameAsEdge x c a d b)).dst) →
        n = entityNode c.id a ∨ n = entityNode d.id b := by
  intro n hn
  have hends : ∀ m, (m = (sameAsEdge x c a d b).src ∨ m = (sameAsEdge x c a d b).dst) →
      m = entityNode c.id a ∨ m = entityNode d.id b := by
    intro m hm
    rw [sameAsEdge] at hm
    split at hm
    · exact hm.symm
    · exact hm
  obtain ⟨-, -, -, ⟨hs, hd⟩ | ⟨-, hs, hd⟩⟩ := canonicalTopologyEdge_content p (sameAsEdge x c a d b)
  · rw [hs, hd] at hn
    exact hends n hn
  · rw [hs, hd] at hn
    exact hends n hn.symm

theorem sameAsEdge_kind {c d : ConnectorRecord} {a b : SnapshotEntity} :
    (sameAsEdge x c a d b).kind = topologyEdgeSameAs := by
  rw [sameAsEdge]
  split <;> rfl

/-- The parts of an edge from a DNS record. -/
theorem IsResolvesTo.eq {d d' : ConnectorRecord} {e : TopologyEdge}
    (h : IsResolvesTo x connectors d d' e) : ∃ dns ∈ d.entities, ∃ target ∈ d'.entities,
      e = ⟨d.id, entityNode d.id dns, entityNode d'.id target, topologyEdgeResolvesTo,
        matchReason x dns target, []⟩ := by
  obtain ⟨dns, hdns, -, target, htarget, -, hedge⟩ := h.edge
  rw [resolvesToEdge] at hedge
  split at hedge
  · cases hedge
  · exact ⟨dns, hdns, target, htarget, (Option.some.inj hedge).symm⟩

include hkeys in
theorem clean_resolvesTo {d d' : ConnectorRecord} {e : TopologyEdge}
    (h : IsResolvesTo x connectors d d' e) : CleanEdge e := by
  obtain ⟨dns, hdns, target, htarget, rfl⟩ := h.eq
  exact ⟨(hkeys.id d h.left).1, cleanNode_entity hkeys h.left hdns,
    cleanNode_entity hkeys h.right htarget, clean_kinds.2, clean_matchReason dns target,
    List.not_mem_nil⟩

include hlab hkeys in
/-- **A rebuild derives again what it deletes of others' edges.** -/
theorem rederived {p q : Bytes} {e : TopologyEdge} (he : e ∈ derivedEdges x connectors p)
    (haffected : topologyEdgesAffectedBy q [] e = true) :
    e.logical ∈ (derivedEdges x connectors q).map TopologyEdge.logical := by
  by_cases hpq : q = p
  · exact hpq ▸ List.mem_map_of_mem he
  obtain ⟨c, hc, rfl, snap, hsnap, a, ha, rfl⟩ := exists_added he
  -- the other side adds the same edge
  have hother : ∀ d ∈ connectors, d.id = q → ∀ s, d.latest = .snapshot s →
      a ∈ addedEdges x connectors d s → CleanEdge a →
        (canonicalTopologyEdge c.id a).logical ∈
          (derivedEdges x connectors q).map TopologyEdge.logical := by
    rintro d hd rfl s hs hadded hclean
    rw [canonicalTopologyEdge_logical c.id d.id]
    exact exists_derived hlab hd hs hadded hclean
  rcases added_cases hlab hkeys hc hsnap ha with
    hown | ⟨d, -, b, -, rfl⟩ | ⟨a, d, b, hlinked, rfl⟩ | ⟨d, hresolves⟩
  · exact absurd (affected_plain hown.1 hown.kinds.1 hown.kinds.2.1 haffected) hpq
  · exact absurd (affected_plain (a := containsEdge d.id d.name b) rfl contains_ne.1 contains_ne.2
      haffected) hpq
  · have hends := sameAsEdge_ends (x := x) (c := c) (d := d) (a := a) (b := b) c.id
    have hside : ∀ n, (n = entityNode c.id a ∨ n = entityNode d.id b) → n.connectorID = q →
        d.id = q := by
      rintro n (rfl | rfl) hn
      · exact absurd hn.symm hpq
      · exact hn
    have hq : d.id = q := by
      rcases affected_cases haffected with h | ⟨-, h | h⟩ | ⟨h, -⟩
      · rw [canonicalTopologyEdge_owner, if_pos sameAsEdge_kind] at h
        exact hside _ (hends _ (Or.inl rfl)) h
      · exact hside _ (hends _ (Or.inl rfl)) h
      · exact hside _ (hends _ (Or.inr rfl)) h
      · obtain ⟨hkind, -, -, -⟩ := canonicalTopologyEdge_content c.id (sameAsEdge x c a d b)
        rw [hkind, sameAsEdge_kind] at h
        exact absurd h.symm resolvesTo_ne
    obtain ⟨s, hs⟩ := exists_snapshot hlinked.right.2
    refine hother d hlinked.right.1 hq s hs ?_ (clean_sameAsEdge hkeys hlinked)
    rw [sameAsEdge_comm hkeys hlinked, addedEdges]
    have hl : linkOf x b c a ∈ matchEntityPairs x connectors d.id s.entities := by
      rw [← entities_of_snapshot hs, mem_matchEntityPairs hlab hkeys hlinked.right.1]
      exact ⟨b, c, a, hlinked.symm, rfl⟩
    refine List.mem_append_left _ (List.mem_append_left _ (List.mem_append_left _
      (List.mem_flatMap.2 ⟨_, hl, ?_⟩)))
    exact List.mem_cons_of_mem _ (List.mem_cons_self ..)
  · -- the edge has the connector of the record, and it leads to that of the entity
    have hends : ∀ e₁ e₂ : ConnectorRecord, IsResolvesTo x connectors e₁ e₂ a →
        e₁.id = q ∨ e₂.id = q := by
      intro e₁ e₂ h
      obtain ⟨dns, -, target, -, rfl⟩ := h.eq
      obtain ⟨hkind, -, -, ⟨-, hdst⟩ | ⟨h, -⟩⟩ := canonicalTopologyEdge_content c.id
        ⟨e₁.id, entityNode e₁.id dns, entityNode e₂.id target, topologyEdgeResolvesTo,
          matchReason x dns target, []⟩
      · rcases affected_cases haffected with h | ⟨h, -⟩ | ⟨-, h⟩
        · rw [canonicalTopologyEdge_owner, if_neg resolvesTo_ne] at h
          split at h
          · exact absurd h.symm hpq
          · exact Or.inl h
        · exact absurd (hkind.symm.trans h) resolvesTo_ne
        · rw [hdst] at h
          exact Or.inr h
      · exact absurd h resolvesTo_ne
    have hresult : ∀ d ∈ connectors, d.id = q → d.entities ≠ [] →
        (IsResolvesTo x connectors c d a ∨ IsResolvesTo x connectors d c a) → CleanEdge a →
          (canonicalTopologyEdge c.id a).logical ∈
            (derivedEdges x connectors q).map TopologyEdge.logical := by
      intro d hd hq hentities h hclean
      obtain ⟨b, hb⟩ := List.exists_mem_of_ne_nil _ hentities
      obtain ⟨s, hs⟩ := exists_snapshot hb
      refine hother d hd hq s hs ?_ hclean
      rw [addedEdges]
      exact List.mem_append_left _ (List.mem_append_left _ (List.mem_append_right _
        ((mem_addResolvesToEdges hd hs).2 ⟨c, h.symm⟩)))
    rcases hresolves with h | h
    · obtain ⟨-, -, target, htarget, -⟩ := h.eq
      exact hresult d h.right ((hends c d h).resolve_left fun heq => hpq heq.symm)
        (List.ne_nil_of_mem htarget) (Or.inl h) (clean_resolvesTo hkeys h)
    · obtain ⟨dns, hdns, -⟩ := h.eq
      exact hresult d h.left ((hends d c h).resolve_right fun heq => hpq heq.symm)
        (List.ne_nil_of_mem hdns) (Or.inr h) (clean_resolvesTo hkeys h)

/-! ### Rebuilds agree -/

/-- The node of an entity of the lab. -/
def IsEntityNode (connectors : List ConnectorRecord) (n : Endpoint) : Prop :=
  ∃ c ∈ connectors, ∃ e ∈ c.entities, n = entityNode c.id e

/-- The service node of a connector of the lab. -/
def IsServiceNode (connectors : List ConnectorRecord) (n : Endpoint) : Prop :=
  ∃ c ∈ connectors, n = serviceNode c.id c.name

/-- An edge that several rebuilds may derive. -/
def SharedEdge (connectors : List ConnectorRecord) (e : TopologyEdge) : Prop :=
  (e.kind = topologyEdgeContains ∧ IsServiceNode connectors e.src ∧
    IsEntityNode connectors e.dst) ∨
  ((e.kind = topologyEdgeSameAs ∨ e.kind = topologyEdgeResolvesTo) ∧
    IsEntityNode connectors e.src ∧ IsEntityNode connectors e.dst)

theorem logicalRef_entityNode (c : Bytes) (e : SnapshotEntity) :
    (entityNode c e).logicalRef = entityRef e := by
  rw [Endpoint.logicalRef]
  split
  · next href =>
      -- without a reference there is no name
      have href : entityRef e = [] := href
      rw [href]
      rw [entityRef] at href
      split at href
      · next hexternal => exact absurd href hexternal
      · exact href
  · rfl

include hlab in
theorem IsEntityNode.eq {n n' : Endpoint} (h : IsEntityNode connectors n)
    (h' : IsEntityNode connectors n') (hid : n.connectorID = n'.connectorID)
    (hkind : n.kind = n'.kind) (href : n.logicalRef = n'.logicalRef) : n = n' := by
  obtain ⟨c, hc, e, he, rfl⟩ := h
  obtain ⟨c', hc', e', he', rfl⟩ := h'
  obtain rfl := hlab.ids.eq_of_key hc hc' hid
  rw [logicalRef_entityNode, logicalRef_entityNode] at href
  rw [(hlab.refs c hc).eq_of_key he he' (Prod.ext hkind href)]

include hlab in
theorem IsServiceNode.eq {n n' : Endpoint} (h : IsServiceNode connectors n)
    (h' : IsServiceNode connectors n') (hid : n.connectorID = n'.connectorID) : n = n' := by
  obtain ⟨c, hc, rfl⟩ := h
  obtain ⟨c', hc', rfl⟩ := h'
  rw [hlab.ids.eq_of_key hc hc' hid]

include hlab hkeys in
/-- What a rebuild inserts is its own, or shared. -/
theorem derived_cases {p : Bytes} {e : TopologyEdge} (he : e ∈ derivedEdges x connectors p) :
    (e.src.connectorID = p ∧ e.kind ≠ topologyEdgeSameAs ∧ e.kind ≠ topologyEdgeResolvesTo ∧
      e.kind ≠ topologyEdgeContains) ∨ SharedEdge connectors e := by
  obtain ⟨c, hc, rfl, snap, hsnap, a, ha, rfl⟩ := exists_added he
  obtain ⟨hkind, -, -, hends⟩ := canonicalTopologyEdge_content c.id a
  rcases added_cases hlab hkeys hc hsnap ha with
    hown | ⟨d, hd, b, hb, rfl⟩ | ⟨a, d, b, hlinked, rfl⟩ | ⟨d, hresolves⟩
  · rcases hends with ⟨hsrc, -⟩ | ⟨hsame, -⟩
    · refine Or.inl ⟨hsrc ▸ hown.2.1, ?_⟩
      rw [hkind]
      exact hown.kinds
    · exact absurd hsame hown.kinds.1
  · rcases hends with ⟨hsrc, hdst⟩ | ⟨hsame, -⟩
    · refine Or.inr (Or.inl ⟨hkind, ?_, ?_⟩)
      · exact hsrc ▸ ⟨d, hd, rfl⟩
      · exact hdst ▸ ⟨d, hd, b, hb, rfl⟩
    · exact absurd hsame contains_ne.1
  · have hnode : ∀ n, (n = entityNode c.id a ∨ n = entityNode d.id b) →
        IsEntityNode connectors n := by
      rintro n (rfl | rfl)
      · exact ⟨c, hc, a, hlinked.left.2, rfl⟩
      · exact ⟨d, hlinked.right.1, b, hlinked.right.2, rfl⟩
    refine Or.inr (Or.inr ⟨Or.inl (hkind.trans sameAsEdge_kind), ?_, ?_⟩)
    · exact hnode _ (sameAsEdge_ends c.id _ (Or.inl rfl))
    · exact hnode _ (sameAsEdge_ends c.id _ (Or.inr rfl))
  · have hshared : ∀ e₁ e₂ : ConnectorRecord, IsResolvesTo x connectors e₁ e₂ a →
        SharedEdge connectors (canonicalTopologyEdge c.id a) := by
      intro e₁ e₂ h
      obtain ⟨dns, hdns, target, htarget, rfl⟩ := h.eq
      rcases hends with ⟨hsrc, hdst⟩ | ⟨hsame, -⟩
      · refine Or.inr ⟨Or.inr hkind, ?_, ?_⟩
        · exact hsrc ▸ ⟨e₁, h.left, dns, hdns, rfl⟩
        · exact hdst ▸ ⟨e₂, h.right, target, htarget, rfl⟩
      · exact absurd hsame resolvesTo_ne
    rcases hresolves with h | h
    · exact Or.inr (hshared c d h)
    · exact Or.inr (hshared d c h)

include hlab in
/-- Shared edges that are the same logical edge differ in nothing but the owner. -/
theorem SharedEdge.content_eq {e f : TopologyEdge} (he : SharedEdge connectors e)
    (hf : SharedEdge connectors f) (h : e.logical = f.logical) : e.content = f.content := by
  simp only [TopologyEdge.logical, LogicalEdge.mk.injEq] at h
  obtain ⟨hsrcID, hsrcKind, hsrcRef, hdstID, hdstKind, hdstRef, hkind, hsource, hdetail⟩ := h
  have hsrc : e.src = f.src := by
    rcases he with ⟨hcontains, hs, -⟩ | ⟨hother, hs, -⟩
    · rcases hf with ⟨-, hs', -⟩ | ⟨hother', -⟩
      · exact hs.eq hlab hs' hsrcID
      · rw [← hkind, hcontains] at hother'
        exact (hother'.elim contains_ne.1 contains_ne.2).elim
    · rcases hf with ⟨hcontains', -⟩ | ⟨-, hs', -⟩
      · rw [hkind, hcontains'] at hother
        exact (hother.elim contains_ne.1 contains_ne.2).elim
      · exact hs.eq hlab hs' hsrcID hsrcKind hsrcRef
  have hdst : e.dst = f.dst := by
    have hnode : ∀ g, SharedEdge connectors g → IsEntityNode connectors g.dst := by
      rintro g (⟨-, -, hd⟩ | ⟨-, -, hd⟩)
      · exact hd
      · exact hd
    exact (hnode e he).eq hlab (hnode f hf) hdstID hdstKind hdstRef
  rw [TopologyEdge.content, TopologyEdge.content, hsrc, hdst, hkind, hsource, hdetail]

include hlab hkeys in
/-- **Rebuilds agree on the edges that both derive.** -/
theorem agree {p q : Bytes} {e f : TopologyEdge} (he : e ∈ derivedEdges x connectors p)
    (hf : f ∈ derivedEdges x connectors q) (h : e.logical = f.logical) :
    e.content = f.content := by
  by_cases hpq : p = q
  · subst hpq
    rw [List.inj_on_of_nodup_map (derivedEdges_nodup p) he hf h]
  · have hkind : e.kind = f.kind := congrArg LogicalEdge.kind h
    rcases derived_cases hlab hkeys he with ⟨hsrc, hsame, hresolves, hcontains⟩ | he'
    · rcases derived_cases hlab hkeys hf with ⟨hsrc', -⟩ | hf'
      · have hsrcID : e.src.connectorID = f.src.connectorID := congrArg LogicalEdge.srcConnectorID h
        exact absurd (hsrc.symm.trans (hsrcID.trans hsrc')) hpq
      · rw [hkind] at hsame hresolves hcontains
        rcases hf' with ⟨hk, -⟩ | ⟨hk | hk, -⟩
        · exact absurd hk hcontains
        · exact absurd hk hsame
        · exact absurd hk hresolves
    · rcases derived_cases hlab hkeys hf with ⟨-, hsame, hresolves, hcontains⟩ | hf'
      · rw [← hkind] at hsame hresolves hcontains
        rcases he' with ⟨hk, -⟩ | ⟨hk | hk, -⟩
        · exact absurd hk hcontains
        · exact absurd hk hsame
        · exact absurd hk hresolves
      · exact he'.content_eq hlab hf' h

/-- **The rebuilds of the lab are coherent.** -/
theorem topologyRebuild_coherent (hlab : ReadableLab connectors) (hkeys : KeysTell x connectors) :
    (topologyRebuild x connectors).Coherent where
  nodup := derivedEdges_nodup
  rederived p q e he haffected := by
    rw [topologyRebuild_affected, Bool.and_eq_true] at haffected
    exact rederived hlab hkeys he haffected.2
  agree p q e he f hf h := agree hlab hkeys he hf h

end Shared

end Rebuild

end WiseLabz.Topology
