/-
**Rebuilds converge.**

A rebuild derives again what it deletes of others' edges, and the edges of any table are owned by
connectors.  So once every connector has been rebuilt, the table does not depend on the order of the
rebuilds, as long as keys tell what they are keys of.  Where they do not, two rebuilds may each drop
another one of two pairs with one key, and the last of them decides.

Main definitions:

* `Topology.RebuildCall`, `Topology.rebuilds` — runs of rebuilds.

Main results:

* `Topology.rebuild_step` — a rebuild is one of a table of derived rows;
* `Topology.topology_converges` — **the table does not depend on the order of the rebuilds**;
* `Topology.topology_diverges` — two orders with two tables.
-/

import WiseLabz.Topology.Derived

set_option relaxedAutoImplicit false
set_option autoImplicit false

namespace WiseLabz.Topology

open Lib

/-! ### Runs -/

/-- A rebuild, with the row ids generated in it. -/
structure RebuildCall where
  connectorID : Bytes
  newID : ℕ → Bytes
  now : Bytes

/-- **Rebuilds of connectors**, from any table whose rows are owned by connectors, as the foreign key
demands. -/
def rebuilds (x : Text) (connectors : List ConnectorRecord) :
    Machine (List TopologyRow) RebuildCall where
  init table := ∀ r ∈ table, ∃ c ∈ connectors, c.id = r.edge.connectorID
  step table call table' :=
    table' = rebuildTopologyForConnector x connectors table call.connectorID call.newID call.now

section Runs

variable {x : Text} {connectors : List ConnectorRecord}

/-- The transaction keeps some rows and inserts the prepared edges. -/
theorem replace_eq (table : List TopologyRow) (p : Bytes) (edges : List TopologyEdge)
    (newID : ℕ → Bytes) (now : Bytes) :
    ∃ rows : List TopologyRow, rows.map TopologyRow.edge = preparedEdges p edges ∧
      replaceTopologyEdgesPreserving table p edges [] newID now =
        (table.filter fun r => topologyEdgesAffectedBy p [] r.edge = false ∧
          r.edge.logical ∉ (preparedEdges p edges).map TopologyEdge.logical) ++ rows := by
  refine ⟨(preparedEdges p edges).mapIdx fun i e => ⟨newID i, e, now⟩, ?_, ?_⟩
  · rw [List.mapIdx_eq_zipIdx_map, List.map_map]
    exact List.zipIdx_map_fst 0 _
  · rw [replaceTopologyEdgesPreserving, List.filter_filter]
    congr 1
    refine List.filter_congr fun r _ => ?_
    rw [Bool.eq_iff_iff, Bool.and_eq_true, Bool.not_eq_true', decide_eq_true_eq, decide_eq_true_eq]
    exact and_comm

theorem loadOtherSnapshots_readable (hlab : ReadableLab connectors) (p : Bytes) :
    (loadOtherSnapshots connectors p).2 = [] := by
  rw [loadOtherSnapshots, List.map_eq_nil_iff, List.filter_eq_nil_iff]
  intro c hc hunreadable
  split at hunreadable
  · next h => exact hlab.readable c (List.mem_of_mem_filter hc) h
  · cases hunreadable

/-- **A rebuild is one of the derived tables.** -/
theorem rebuild_step (hlab : ReadableLab connectors) {init : List TopologyRow → Prop}
    (table : List TopologyRow) (p : Bytes) (newID : ℕ → Bytes) (now : Bytes) :
    ((topologyRebuild x connectors).machine TopologyRow.edge init).step table p
      (rebuildTopologyForConnector x connectors table p newID now) := by
  rw [rebuildTopologyForConnector]
  cases hfind : connectors.find? (·.id = p) with
  | none =>
      have hany : (connectors.any fun c => c.id = p) = false := by
        rw [List.find?_eq_none] at hfind
        rw [List.any_eq_false]
        exact hfind
      have hderived : derivedEdges x connectors p = [] := by
        rw [derivedEdges, hfind]
      refine ⟨[], hderived.symm, ?_⟩
      rw [List.append_nil, List.filter_eq_self.2]
      intro r _
      refine decide_eq_true ⟨?_, ?_⟩
      · rw [topologyRebuild_affected, hany, Bool.false_and]
      · rw [topologyRebuild_derived, hderived]
        exact List.not_mem_nil
  | some c =>
      have hid : c.id = p := by simpa using List.find?_some hfind
      have hmem : c ∈ connectors := List.mem_of_find?_eq_some hfind
      have hany : (connectors.any fun c => c.id = p) = true :=
        List.any_eq_true.2 ⟨c, hmem, decide_eq_true hid⟩
      -- the transaction inserts what the part derives
      have hreplace : ∀ edges, derivedEdges x connectors p = preparedEdges p edges →
          ((topologyRebuild x connectors).machine TopologyRow.edge init).step table p
            (replaceTopologyEdgesPreserving table p edges [] newID now) := by
        intro edges hderived
        obtain ⟨rows, hrows, heq⟩ := replace_eq table p edges newID now
        refine ⟨rows, hrows.trans hderived.symm, heq.trans ?_⟩
        congr 1
        refine List.filter_congr fun r _ => decide_eq_decide.2 ?_
        rw [Rebuild.Kept, topologyRebuild_affected, topologyRebuild_derived, topologyRebuild_key,
          hany, hderived, Bool.true_and]
      cases hlatest : c.latest with
      | missing =>
          simp only [hlatest]
          refine hreplace [] ?_
          rw [derivedEdges, hfind]
          simp only [hlatest]
          rfl
      | unreadable => exact absurd hlatest (hlab.readable c hmem)
      | snapshot snap =>
          simp only [hlatest, loadOtherSnapshots_readable hlab]
          refine hreplace _ ?_
          rw [derivedEdges, hfind]
          simp only [hlatest]

theorem run_rebuilds (init : List TopologyRow → Prop) (hlab : ReadableLab connectors)
    {s t : List TopologyRow} {calls : List RebuildCall} (h : (rebuilds x connectors).Run s calls t) :
    ((topologyRebuild x connectors).machine TopologyRow.edge init).Run s
      (calls.map RebuildCall.connectorID) t := by
  induction h with
  | nil => exact .nil
  | snoc _ hstep ih =>
      rw [List.map_append, List.map_singleton]
      obtain rfl := hstep
      exact ih.snoc (rebuild_step hlab ..)

/-- What the rebuilds of all connectors leave. -/
theorem run_result (hlab : ReadableLab connectors) (hkeys : KeysTell x connectors)
    {s t : List TopologyRow} {calls : List RebuildCall} (hs : (rebuilds x connectors).init s)
    (h : (rebuilds x connectors).Run s calls t)
    (hall : ∀ c ∈ connectors, ∃ call ∈ calls, call.connectorID = c.id) :
    (∀ e, (∃ r ∈ t, r.edge.content = e) ↔
      ∃ c ∈ connectors, ∃ d ∈ derivedEdges x connectors c.id, d.content = e) ∧
    (t.map fun r => r.edge.logical).Nodup := by
  have hR := topologyRebuild_coherent hlab hkeys
  have hrun := run_rebuilds (fun _ => True) hlab h
  -- a stored edge is affected by the rebuild of its owner
  have haffected : ∀ r ∈ s, ∃ p ∈ calls.map RebuildCall.connectorID,
      (topologyRebuild x connectors).affected p r.edge = true := by
    intro r hr
    obtain ⟨c, hc, hid⟩ := hs r hr
    obtain ⟨call, hcall, hcallID⟩ := hall c hc
    refine ⟨c.id, List.mem_map.2 ⟨call, hcall, hcallID⟩, ?_⟩
    have hany : (connectors.any fun d => d.id = c.id) = true :=
      List.any_eq_true.2 ⟨c, hc, decide_eq_true rfl⟩
    rw [topologyRebuild_affected, hany, Bool.true_and]
    simp [topologyEdgesAffectedBy, hid]
  refine ⟨fun e => (Rebuild.mem_run hR hrun haffected e).trans ⟨?_, ?_⟩,
    Rebuild.nodup_run hR hrun haffected⟩
  · rintro ⟨p, -, d, hd, rfl⟩
    obtain ⟨c, hc, rfl, -⟩ := exists_added hd
    exact ⟨c, hc, d, hd, rfl⟩
  · rintro ⟨c, hc, d, hd, rfl⟩
    obtain ⟨call, hcall, hcallID⟩ := hall c hc
    exact ⟨c.id, List.mem_map.2 ⟨call, hcall, hcallID⟩, d, hd, rfl⟩

end Runs

/-- **The table does not depend on the order of the rebuilds**, once every connector has been
rebuilt: the stored edges are the same but for their row ids, owners and times, and each logical edge
is stored once. -/
theorem topology_converges {x : Text} {connectors : List ConnectorRecord}
    (hlab : ReadableLab connectors) (hkeys : KeysTell x connectors) {s t t' : List TopologyRow}
    {calls calls' : List RebuildCall} (hs : (rebuilds x connectors).init s)
    (h : (rebuilds x connectors).Run s calls t) (h' : (rebuilds x connectors).Run s calls' t')
    (hall : ∀ c ∈ connectors, ∃ call ∈ calls, call.connectorID = c.id)
    (hall' : ∀ c ∈ connectors, ∃ call ∈ calls', call.connectorID = c.id) :
    (∀ e, (∃ r ∈ t, r.edge.content = e) ↔ ∃ r ∈ t', r.edge.content = e) ∧
    (∀ l, (∃ r ∈ t, r.edge.logical = l) ↔ ∃ r ∈ t', r.edge.logical = l) ∧
    (t.map fun r => r.edge.logical).Nodup ∧ (t'.map fun r => r.edge.logical).Nodup := by
  obtain ⟨hcontent, hnodup⟩ := run_result hlab hkeys hs h hall
  obtain ⟨hcontent', hnodup'⟩ := run_result hlab hkeys hs h' hall'
  have hsame : ∀ e, (∃ r ∈ t, r.edge.content = e) ↔ ∃ r ∈ t', r.edge.content = e :=
    fun e => (hcontent e).trans (hcontent' e).symm
  have hlogical : ∀ u v : List TopologyRow,
      (∀ e, (∃ r ∈ u, r.edge.content = e) → ∃ r ∈ v, r.edge.content = e) →
        ∀ l, (∃ r ∈ u, r.edge.logical = l) → ∃ r ∈ v, r.edge.logical = l := by
    rintro u v huv l ⟨r, hr, rfl⟩
    obtain ⟨r', hr', heq⟩ := huv r.edge.content ⟨r, hr, rfl⟩
    -- the owner is no part of the logical edge
    have hlogical : r'.edge.content.logical = r.edge.content.logical := congrArg _ heq
    exact ⟨r', hr', hlogical⟩
  exact ⟨hsame, fun l => ⟨hlogical t t' (fun e => (hsame e).1) l,
    hlogical t' t (fun e => (hsame e).2) l⟩, hnodup, hnodup'⟩

/-! ### Samples -/

/-- What the packages do with texts in lower case that are no URLs. -/
def plainText : Text := ⟨id, id, id, fun _ => none⟩

/-- A machine without an address. -/
def sampleEntity (name externalID other : Bytes) : SnapshotEntity :=
  ⟨bytes "vm", name, [], [], [other], externalID, []⟩

def sampleCall (connectorID : Bytes) : RebuildCall := ⟨connectorID, fun _ => [], []⟩

/-- The table after rebuilds of these connectors. -/
def sampleTable (lab : List ConnectorRecord) (ids : List Bytes) : List TopologyRow :=
  ids.foldl (fun table id => rebuildTopologyForConnector plainText lab table id (fun _ => []) []) []

theorem sampleTable_run (lab : List ConnectorRecord) (ids : List Bytes) :
    (rebuilds plainText lab).Run [] (ids.map sampleCall) (sampleTable lab ids) := by
  induction ids using List.reverseRecOn with
  | nil => exact .nil
  | append_singleton ids id ih =>
      rw [List.map_append, List.map_singleton, sampleTable, List.foldl_append]
      exact ih.snoc rfl

/-- One machine, seen by two connectors. -/
def twinLab : List ConnectorRecord :=
  [⟨[65], bytes "a", .snapshot ⟨[sampleEntity (bytes "x") [] (bytes "h")], []⟩⟩,
    ⟨[66], bytes "b", .snapshot ⟨[sampleEntity (bytes "y") [] (bytes "h")], []⟩⟩]

theorem twinLab_cases {c : ConnectorRecord} (hc : c ∈ twinLab) :
    c.latest ≠ .unreadable ∧ (matchingPairs plainText twinLab c.id c.entities).length ≤ 1 := by
  rcases List.mem_cons.1 hc with rfl | hc
  · exact ⟨nofun, by decide⟩
  · rw [List.mem_singleton.1 hc]
    exact ⟨nofun, by decide⟩

theorem twinLab_readable : ReadableLab twinLab where
  ids := by decide
  readable _ hc := (twinLab_cases hc).1
  refs := by decide

theorem twinLab_keysTell : KeysTell plainText twinLab where
  id := by decide
  entity := by decide
  pair c hc l hl l' hl' _ := by
    have hone := (twinLab_cases hc).2
    obtain ⟨k, hk⟩ := List.length_eq_one_iff.1 (hone.antisymm (List.length_pos_of_mem hl))
    rw [hk] at hl hl'
    rw [List.mem_singleton.1 hl, List.mem_singleton.1 hl']

theorem topology_converges_sample :
    (∀ l, (∃ r ∈ sampleTable twinLab [[65], [66]], r.edge.logical = l) ↔
      ∃ r ∈ sampleTable twinLab [[66], [65], [65]], r.edge.logical = l) ∧
    (sampleTable twinLab [[65], [66]]).length = 3 := by
  refine ⟨?_, by decide⟩
  exact (topology_converges twinLab_readable twinLab_keysTell
    (fun _ hr => absurd hr List.not_mem_nil) (sampleTable_run twinLab [[65], [66]])
    (sampleTable_run twinLab [[66], [65], [65]]) (by decide) (by decide)).2.1

/-! ### Keys that do not tell -/

/-- The external id of one machine is the key of the other one: `x||` and the name `x`. -/
def sampleEntities (name first second : Bytes) : List SnapshotEntity :=
  [sampleEntity (bytes "vm-1") (name ++ bytes "||") first, sampleEntity name [] second]

/-- Two connectors; the first machine of each is the second one of the other. -/
def sampleLab : List ConnectorRecord :=
  [⟨[65], bytes "A", .snapshot ⟨sampleEntities (bytes "x") (bytes "h") (bytes "g"), []⟩⟩,
    ⟨[66], bytes "B", .snapshot ⟨sampleEntities (bytes "y") (bytes "g") (bytes "h"), []⟩⟩]

theorem sampleLab_readable : ReadableLab sampleLab where
  ids := by decide
  readable c hc := by
    rcases List.mem_cons.1 hc with rfl | hc
    · nofun
    · rw [List.mem_singleton.1 hc]
      nofun
  refs := by decide

/-- **Two orders with two tables**: of the two pairs that match, which have one key, each side keeps
another one. -/
theorem topology_diverges :
    ReadableLab sampleLab ∧ (rebuilds plainText sampleLab).init [] ∧
    (rebuilds plainText sampleLab).Run [] [sampleCall [65], sampleCall [66]]
      (sampleTable sampleLab [[65], [66]]) ∧
    (rebuilds plainText sampleLab).Run [] [sampleCall [66], sampleCall [65]]
      (sampleTable sampleLab [[66], [65]]) ∧
    ¬ ∀ l, (∃ r ∈ sampleTable sampleLab [[65], [66]], r.edge.logical = l) ↔
      ∃ r ∈ sampleTable sampleLab [[66], [65]], r.edge.logical = l := by
  refine ⟨sampleLab_readable, fun _ hr => absurd hr List.not_mem_nil,
    sampleTable_run sampleLab [[65], [66]], sampleTable_run sampleLab [[66], [65]], ?_⟩
  intro hsame
  have hother : ∃ r ∈ sampleTable sampleLab [[65], [66]],
      ∀ r' ∈ sampleTable sampleLab [[66], [65]], r'.edge.logical ≠ r.edge.logical := by
    decide
  obtain ⟨r, hr, hnone⟩ := hother
  obtain ⟨r', hr', heq⟩ := (hsame r.edge.logical).1 ⟨r, hr, rfl⟩
  exact hnone r' hr' heq

end WiseLabz.Topology
