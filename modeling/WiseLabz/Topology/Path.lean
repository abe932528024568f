/-
**Paths through the topology.**

The edges of the topology make a graph of nodes, which are known by a key.  A shortest path is
searched from all nodes of a name, and what depends on a node is walked through along the edges; an
edge between two that are the same thing is crossed both ways.

Main definitions:

* `Topology.buildGraph` — the graph of some edges;
* `Topology.shortestPath` — **a shortest path** between two names;
* `Topology.followDirected` — **all that can be reached** along the edges.

Main results:

* `Topology.shortestPath_spec` — the path is a path, and there is no shorter one;
* `Topology.followDirected_spec` — every node that can be reached is told once, the nearest first,
  and a limit cuts the walk off.
-/

import WiseLabz.Lib.BreadthFirst
import WiseLabz.Lib.Table
import WiseLabz.Topology.Edges
import Mathlib.Data.List.Chain

set_option relaxedAutoImplicit false
set_option autoImplicit false

namespace WiseLabz.Topology

open Lib Lib.BreadthFirst

/-! ### The graph -/

/-- `Node.key`. -/
def Endpoint.nodeKey (n : Endpoint) : Bytes :=
  n.connectorID ++ 0 :: (n.kind ++ 0 :: if n.ref = [] then n.name else n.ref)

/-- `Node.matches`. -/
def Endpoint.matches (x : Text) (n : Endpoint) (q : Bytes) : Bool :=
  x.equalFold n.name q || (n.ref ≠ [] && x.equalFold n.ref q)

/-- The edge by which a node is reached. -/
structure Via where
  kind : Bytes
  source : Bytes
  detail : Bytes
  reversed : Bool
  deriving DecidableEq, Repr

/-- The nodes in the order in which they come first, and the ways between them. -/
structure Graph where
  nodes : List Endpoint
  adj : List (Bytes × Bytes × Via)

/-- A node is known by the first one of its key. -/
def touch (nodes : List Endpoint) (n : Endpoint) : List Endpoint :=
  if (lookup Endpoint.nodeKey nodes n.nodeKey).isSome then nodes else nodes ++ [n]

def TopologyEdge.via (e : TopologyEdge) (reversed : Bool) : Via :=
  ⟨e.kind, e.source, e.detail, reversed⟩

/-- The ways that an edge makes. -/
def TopologyEdge.ways (directed : Bool) (e : TopologyEdge) : List (Bytes × Bytes × Via) :=
  (e.src.nodeKey, e.dst.nodeKey, e.via false) ::
    if !directed || e.kind = topologyEdgeSameAs then
      [(e.dst.nodeKey, e.src.nodeKey, e.via true)]
    else []

def addEdge (directed : Bool) (g : Graph) (e : TopologyEdge) : Graph :=
  ⟨touch (touch g.nodes e.src) e.dst, g.adj ++ e.ways directed⟩

def buildGraph (edges : List TopologyEdge) (directed : Bool) : Graph :=
  edges.foldl (addEdge directed) ⟨[], []⟩

/-- The ways from a node. -/
def Graph.neighbours (g : Graph) (k : Bytes) : List (Bytes × Via) :=
  (g.adj.filter fun way => way.1 = k).map (·.2)

/-- The node of a key; one that is not there has no name. -/
def Graph.node (g : Graph) (k : Bytes) : Endpoint :=
  (lookup Endpoint.nodeKey g.nodes k).getD ⟨[], [], [], []⟩

/-- The nodes of a name. -/
def Graph.starts (x : Text) (g : Graph) (q : Bytes) : List Bytes :=
  (g.nodes.filter (·.matches x q)).map Endpoint.nodeKey

/-! ### Paths -/

/-- A node of a path, with the edge by which it is reached. -/
structure Step where
  connectorID : Bytes
  kind : Bytes
  name : Bytes
  graphNodeKey : Bytes
  fromKey : Bytes
  edgeReversed : Bool
  edgeKind : Bytes
  edgeSource : Bytes
  detail : Bytes
  deriving DecidableEq, Repr

def Graph.step (g : Graph) (f : Found Bytes Via) : Step :=
  let n := g.node f.key
  match f.hop with
  | none => ⟨n.connectorID, n.kind, n.name, f.key, [], false, [], [], []⟩
  | some (p, via) =>
      ⟨n.connectorID, n.kind, n.name, f.key, p, via.reversed, via.kind, via.source, via.detail⟩

/-- **A shortest path** between two names, or nothing. -/
def shortestPath (x : Text) (edges : List TopologyEdge) (src dst : Bytes) (directed : Bool) :
    List Step :=
  let g := buildGraph edges directed
  match search g.neighbours (fun k => (g.node k).matches x dst) (g.nodes.length + 1)
      (start (g.starts x src)) with
  | (s, some k) => ((back s.found s.found.length k).reverse).map g.step
  | (_, none) => []

/-- **All that can be reached along the edges**, up to a limit if it is positive, and whether more
can be reached. -/
def followDirected (x : Text) (edges : List TopologyEdge) (src : Bytes) (limit : ℤ) :
    List Step × Bool :=
  let g := buildGraph edges true
  let (found, truncated) := visit g.neighbours (fun n => 0 < limit && limit ≤ n)
    (g.nodes.length + 1) (start (g.starts x src)) []
  (found.map g.step, truncated)

/-! ### What the graph is -/

/-- The ends of the edges, in their order. -/
def endpoints (edges : List TopologyEdge) : List Endpoint := edges.flatMap fun e => [e.src, e.dst]

theorem lookup_touch (nodes : List Endpoint) (n : Endpoint) (k : Bytes) :
    lookup Endpoint.nodeKey (touch nodes n) k = lookup Endpoint.nodeKey (nodes ++ [n]) k := by
  rw [touch]
  split
  case isTrue h =>
    rw [lookup_append]
    cases hlookup : lookup Endpoint.nodeKey nodes k with
    | some found => rfl
    | none =>
        obtain ⟨m, hm, hkey⟩ := lookup_isSome.1 h
        rw [lookup_cons, if_neg fun heq => lookup_eq_none.1 hlookup m hm (hkey.trans heq)]
        rfl
  case isFalse => rfl

theorem touch_keyNodup {nodes : List Endpoint} (h : KeyNodup Endpoint.nodeKey nodes)
    (n : Endpoint) : KeyNodup Endpoint.nodeKey (touch nodes n) := by
  rw [touch]
  split
  case isTrue => exact h
  case isFalse hnew => exact h.append_singleton (Option.not_isSome_iff_eq_none.1 hnew)

/-- What holds of a graph of some edges. -/
structure Graph.Of (directed : Bool) (edges : List TopologyEdge) (g : Graph) : Prop where
  adj : g.adj = edges.flatMap (·.ways directed)
  lookup : ∀ k, Lib.lookup Endpoint.nodeKey g.nodes k =
    Lib.lookup Endpoint.nodeKey (endpoints edges) k
  distinct : KeyNodup Endpoint.nodeKey g.nodes

theorem buildGraph_of (edges : List TopologyEdge) (directed : Bool) :
    (buildGraph edges directed).Of directed edges := by
  suffices h : ∀ (done : List TopologyEdge) (g : Graph), g.Of directed done →
      (edges.foldl (addEdge directed) g).Of directed (done ++ edges) from
    h [] ⟨[], []⟩ ⟨rfl, fun _ => rfl, keyNodup_nil⟩
  induction edges with
  | nil =>
      intro done g h
      rwa [List.append_nil]
  | cons e edges ih =>
      intro done g h
      have hnext : (addEdge directed g e).Of directed (done ++ [e]) := by
        refine ⟨?_, fun k => ?_, touch_keyNodup (touch_keyNodup h.distinct _) _⟩
        · simp [addEdge, h.adj]
        · have hends : endpoints (done ++ [e]) = endpoints done ++ [e.src] ++ [e.dst] := by
            simp [endpoints]
          rw [addEdge, lookup_touch, lookup_append, lookup_touch, lookup_append, h.lookup, hends,
            lookup_append, lookup_append]
      have := ih _ _ hnext
      rwa [List.append_assoc] at this

/-! ### What can be reached -/

/-- The node of a key is the first end of an edge that has it. -/
def NodeOf (edges : List TopologyEdge) (k : Bytes) (n : Endpoint) : Prop :=
  lookup Endpoint.nodeKey (endpoints edges) k = some n

/-- An edge leads from a node to another; backwards it is crossed if that is allowed. -/
def TopologyEdge.Leads (directed : Bool) (e : TopologyEdge) (a b : Bytes) (reversed : Bool) :
    Prop :=
  if reversed then
    (directed = false ∨ e.kind = topologyEdgeSameAs) ∧ a = e.dst.nodeKey ∧ b = e.src.nodeKey
  else a = e.src.nodeKey ∧ b = e.dst.nodeKey

/-- What can be reached from the nodes of a name, over so many edges. -/
inductive Reaches (x : Text) (edges : List TopologyEdge) (directed : Bool) (src : Bytes) :
    ℕ → Bytes → Prop
  | start {k : Bytes} {n : Endpoint} : NodeOf edges k n → n.matches x src = true →
      Reaches x edges directed src 0 k
  | step {m : ℕ} {a b : Bytes} {e : TopologyEdge} {reversed : Bool} :
      Reaches x edges directed src m a → e ∈ edges → e.Leads directed a b reversed →
        Reaches x edges directed src (m + 1) b

section Reachable

variable {x : Text} {edges : List TopologyEdge} {directed : Bool} {src dst : Bytes} {g : Graph}

theorem Graph.Of.mem_neighbours (h : g.Of directed edges) {a b : Bytes} {via : Via} :
    (b, via) ∈ g.neighbours a ↔
      ∃ e ∈ edges, via = e.via via.reversed ∧ e.Leads directed a b via.reversed := by
  simp only [Graph.neighbours, h.adj, List.mem_map, List.mem_filter, List.mem_flatMap,
    decide_eq_true_eq]
  constructor
  · rintro ⟨⟨a', way⟩, ⟨⟨e, he, hway⟩, rfl⟩, rfl⟩
    rw [TopologyEdge.ways] at hway
    rcases List.mem_cons.1 hway with hway | hway
    · obtain ⟨rfl, rfl, rfl⟩ := Prod.ext_iff.1 hway |>.imp id Prod.ext_iff.1
      exact ⟨e, he, rfl, rfl, rfl⟩
    · split at hway
      case isTrue hback =>
        obtain ⟨rfl, rfl, rfl⟩ :=
          Prod.ext_iff.1 (List.mem_singleton.1 hway) |>.imp id Prod.ext_iff.1
        exact ⟨e, he, rfl, by simpa using hback, rfl, rfl⟩
      case isFalse => cases hway
  · rintro ⟨e, he, hvia, hleads⟩
    refine ⟨(a, b, via), ⟨⟨e, he, ?_⟩, rfl⟩, rfl⟩
    rw [TopologyEdge.Leads] at hleads
    rw [TopologyEdge.ways]
    cases hreversed : via.reversed with
    | false =>
        rw [hreversed] at hvia hleads
        obtain ⟨rfl, rfl⟩ := hleads
        exact hvia ▸ List.mem_cons_self
    | true =>
        rw [hreversed, if_pos rfl] at hleads
        rw [hreversed] at hvia
        obtain ⟨hback, rfl, rfl⟩ := hleads
        refine List.mem_cons_of_mem _ ?_
        rw [if_pos (by simpa using hback), hvia]
        exact List.mem_singleton_self _

theorem Graph.Of.node (h : g.Of directed edges) {k : Bytes} {n : Endpoint} (hn : NodeOf edges k n) :
    g.node k = n := by
  rw [Graph.node, h.lookup, hn]
  rfl

/-- An end of an edge has a node. -/
theorem exists_nodeOf {n : Endpoint} (hn : n ∈ endpoints edges) : ∃ m, NodeOf edges n.nodeKey m :=
  Option.isSome_iff_exists.1 (lookup_isSome.2 ⟨n, hn, rfl⟩)

/-- What an edge leads to has a node. -/
theorem exists_nodeOf_of_leads {e : TopologyEdge} (he : e ∈ edges) {a b : Bytes} {reversed : Bool}
    (hleads : e.Leads directed a b reversed) : ∃ n, NodeOf edges b n := by
  have hsrc : e.src ∈ endpoints edges := List.mem_flatMap.2 ⟨e, he, by simp⟩
  have hdst : e.dst ∈ endpoints edges := List.mem_flatMap.2 ⟨e, he, by simp⟩
  cases reversed with
  | false => exact hleads.2 ▸ exists_nodeOf hdst
  | true => exact hleads.2.2 ▸ exists_nodeOf hsrc

theorem Graph.Of.mem_keys (h : g.Of directed edges) {k : Bytes} {n : Endpoint}
    (hn : NodeOf edges k n) : k ∈ g.nodes.map Endpoint.nodeKey := by
  rw [NodeOf, ← h.lookup] at hn
  obtain ⟨hmem, rfl⟩ := lookup_eq_some hn
  exact List.mem_map_of_mem hmem

theorem Graph.Of.mem_starts (h : g.Of directed edges) {k : Bytes} :
    k ∈ g.starts x src ↔ ∃ n, NodeOf edges k n ∧ n.matches x src = true := by
  rw [Graph.starts, List.mem_map]
  constructor
  · rintro ⟨n, hn, rfl⟩
    obtain ⟨hn, hmatch⟩ := List.mem_filter.1 hn
    refine ⟨n, ?_, hmatch⟩
    rw [NodeOf, ← h.lookup]
    exact h.distinct.lookup_of_mem hn
  · rintro ⟨n, hn, hmatch⟩
    rw [NodeOf, ← h.lookup] at hn
    obtain ⟨hmem, hkey⟩ := lookup_eq_some hn
    exact ⟨n, List.mem_filter.2 ⟨hmem, hmatch⟩, hkey⟩

/-- What can be reached is what a walk in the graph leads to. -/
theorem Graph.Of.reaches_iff (h : g.Of directed edges) {m : ℕ} {k : Bytes} :
    Reaches x edges directed src m k ↔ Walk g.neighbours (g.starts x src) m k := by
  constructor
  · intro hreach
    induction hreach with
    | start hn hmatch => exact .start (h.mem_starts.2 ⟨_, hn, hmatch⟩)
    | @step m a b e reversed _ he hleads ih =>
        have hmem : (b, e.via reversed) ∈ g.neighbours a :=
          h.mem_neighbours.2 ⟨e, he, rfl, hleads⟩
        exact .step ih hmem
  · intro hwalk
    induction hwalk with
    | start hk =>
        obtain ⟨n, hn, hmatch⟩ := h.mem_starts.1 hk
        exact .start hn hmatch
    | step _ hnb ih =>
        obtain ⟨e, he, -, hleads⟩ := h.mem_neighbours.1 hnb
        exact .step ih he hleads

/-- The starts and the neighbours are nodes of the graph. -/
theorem Graph.Of.starts_nodup (h : g.Of directed edges) : (g.starts x src).Nodup :=
  h.distinct.sublist (List.filter_sublist.map _)

theorem Graph.Of.starts_mem (h : g.Of directed edges) :
    ∀ k ∈ g.starts x src, k ∈ g.nodes.map Endpoint.nodeKey := by
  intro k hk
  obtain ⟨n, hn, -⟩ := h.mem_starts.1 hk
  exact h.mem_keys hn

theorem Graph.Of.neighbours_mem (h : g.Of directed edges) :
    ∀ a, ∀ nb ∈ g.neighbours a, nb.1 ∈ g.nodes.map Endpoint.nodeKey := by
  intro a nb hnb
  obtain ⟨e, he, -, hleads⟩ := h.mem_neighbours.1 hnb
  obtain ⟨n, hn⟩ := exists_nodeOf_of_leads he hleads
  exact h.mem_keys hn

/-! ### What is told of a path -/

/-- A step tells the node of its key. -/
def StepOf (edges : List TopologyEdge) (s : Step) : Prop :=
  ∃ n, NodeOf edges s.graphNodeKey n ∧ s.connectorID = n.connectorID ∧ s.kind = n.kind ∧
    s.name = n.name

/-- A step tells the edge that leads to it from the one before. -/
def Joined (edges : List TopologyEdge) (directed : Bool) (a b : Step) : Prop :=
  b.fromKey = a.graphNodeKey ∧ ∃ e ∈ edges, e.Leads directed a.graphNodeKey b.graphNodeKey
    b.edgeReversed ∧ b.edgeKind = e.kind ∧ b.edgeSource = e.source ∧ b.detail = e.detail

/-- **A path** from a node of a name to one of another. -/
structure IsPath (x : Text) (edges : List TopologyEdge) (directed : Bool) (src dst : Bytes)
    (steps : List Step) : Prop where
  first : ∃ s ∈ steps.head?, s.fromKey = [] ∧ ∃ n, NodeOf edges s.graphNodeKey n ∧
    n.matches x src = true
  last : ∃ s ∈ steps.getLast?, ∃ n, NodeOf edges s.graphNodeKey n ∧ n.matches x dst = true
  joined : steps.IsChain (Joined edges directed)
  nodes : ∀ s ∈ steps, StepOf edges s

/-- What is a start, or a neighbour of a node, has a node. -/
theorem Graph.Of.nodeOf_of_mem (h : g.Of directed edges) {k : Bytes}
    (hk : k ∈ g.starts x src ∨ ∃ a, ∃ nb ∈ g.neighbours a, nb.1 = k) : ∃ n, NodeOf edges k n := by
  obtain hk | ⟨a, nb, hnb, rfl⟩ := hk
  · obtain ⟨n, hn, -⟩ := h.mem_starts.1 hk
    exact ⟨n, hn⟩
  · obtain ⟨e, he, -, hleads⟩ := h.mem_neighbours.1 hnb
    exact exists_nodeOf_of_leads he hleads

theorem Graph.step_key (g : Graph) (f : Found Bytes Via) : (g.step f).graphNodeKey = f.key := by
  rw [Graph.step]
  split <;> rfl

theorem Graph.Of.stepOf (h : g.Of directed edges) {f : Found Bytes Via} {n : Endpoint}
    (hn : NodeOf edges f.key n) : StepOf edges (g.step f) := by
  refine ⟨n, by rwa [g.step_key], ?_⟩
  rw [Graph.step, h.node hn]
  split <;> exact ⟨rfl, rfl, rfl⟩

/-- A node is joined to the one that it was found from. -/
theorem Graph.Of.joined (h : g.Of directed edges) {f f' : Found Bytes Via} {via : Via}
    (hhop : f.hop = some (f'.key, via)) (hedge : (f.key, via) ∈ g.neighbours f'.key) :
    Joined edges directed (g.step f') (g.step f) := by
  obtain ⟨e, he, heq, hleads⟩ := h.mem_neighbours.1 hedge
  refine ⟨?_, e, he, ?_⟩
  · rw [g.step_key, Graph.step, hhop]
  · rw [g.step_key, g.step_key, Graph.step, hhop]
    exact ⟨hleads, congrArg Via.kind heq, congrArg Via.source heq, congrArg Via.detail heq⟩

/-- The way back of a search, told from its start. -/
theorem Graph.Of.isPath (h : g.Of directed edges) {trail : List (Found Bytes Via)}
    (htrail : Trail g.neighbours (g.starts x src) trail) {k : Bytes} {n : Endpoint}
    (hk : trail.head?.map Found.key = some k) (hn : NodeOf edges k n)
    (hmatch : n.matches x dst = true) :
    IsPath x edges directed src dst (trail.reverse.map g.step) := by
  obtain ⟨hchain, f, hlast, hhop, hstart⟩ := htrail.isChain
  refine ⟨⟨g.step f, ?_, ?_, ?_⟩, ?_, ?_, ?_⟩
  · rw [List.head?_map, List.head?_reverse, hlast]
    rfl
  · rw [Graph.step, hhop]
  · rw [g.step_key]
    exact h.mem_starts.1 hstart
  · obtain ⟨f', hf', rfl⟩ := Option.map_eq_some_iff.1 hk
    refine ⟨g.step f', ?_, n, by rwa [g.step_key], hmatch⟩
    rw [List.getLast?_map, List.getLast?_reverse, hf']
    rfl
  · rw [List.isChain_map, List.isChain_reverse]
    exact hchain.imp fun a b ⟨via, hvia, hedge⟩ => h.joined hvia hedge
  · intro s hs
    obtain ⟨f', hf', rfl⟩ := List.mem_map.1 hs
    obtain ⟨m, hm⟩ := h.nodeOf_of_mem (htrail.mem (List.mem_reverse.1 hf'))
    exact h.stepOf hm

/-- **The shortest path**: a path of the edges from a node of the one name to one of the other, and
none is shorter; if there is no path, nothing is told. -/
theorem shortestPath_spec (x : Text) (edges : List TopologyEdge) (src dst : Bytes)
    (directed : Bool) :
    (shortestPath x edges src dst directed = [] ∧
      ∀ m k n, Reaches x edges directed src m k → NodeOf edges k n → n.matches x dst = false) ∨
    (IsPath x edges directed src dst (shortestPath x edges src dst directed) ∧
      ∀ m k n, Reaches x edges directed src m k → NodeOf edges k n → n.matches x dst = true →
        (shortestPath x edges src dst directed).length ≤ m + 1) := by
  have h := buildGraph_of edges directed
  rw [shortestPath]
  set g := buildGraph edges directed
  have hturns : (g.nodes.map Endpoint.nodeKey).length < g.nodes.length + 1 := by simp
  obtain ⟨s, result, hsearch⟩ : ∃ s result, search g.neighbours (fun k => (g.node k).matches x dst)
    (g.nodes.length + 1) (start (g.starts x src)) = (s, result) := ⟨_, _, rfl⟩
  rw [hsearch]
  cases result with
  | none =>
      refine .inl ⟨rfl, fun m k n hreach hn => ?_⟩
      have := (search_none h.starts_nodup h.starts_mem h.neighbours_mem hturns hsearch
        (h.reaches_iff.1 hreach)).2
      rwa [h.node hn] at this
  | some k =>
      obtain ⟨hstop, htrail, hhead, -, hshortest⟩ :=
        search_some h.starts_nodup h.starts_mem h.neighbours_mem hturns hsearch
      obtain ⟨f, hf, rfl⟩ := Option.map_eq_some_iff.1 hhead
      obtain ⟨n, hn⟩ := h.nodeOf_of_mem (htrail.mem (List.mem_of_mem_head? hf))
      rw [h.node hn] at hstop
      refine .inr ⟨h.isPath htrail hhead hn hstop, fun m t n' hreach hn' hmatch => ?_⟩
      rw [List.length_map, List.length_reverse]
      refine hshortest m t (h.reaches_iff.1 hreach) ?_
      rwa [h.node hn']

/-- **All that can be reached along the edges**: every node once, the nearest first, each with the
edge from a node told before it; with a limit the first of them, and whether there are more. -/
theorem followDirected_spec (x : Text) (edges : List TopologyEdge) (src : Bytes) :
    ∃ (all : List Step) (depth : Bytes → ℕ),
      (∀ limit ≤ 0, followDirected x edges src limit = (all, false)) ∧
      (∀ limit : ℕ, 0 < limit → followDirected x edges src limit =
        (all.take limit, decide (limit < all.length))) ∧
      (all.map Step.graphNodeKey).Nodup ∧
      (∀ k, k ∈ all.map Step.graphNodeKey ↔ ∃ m, Reaches x edges true src m k) ∧
      (all.map Step.graphNodeKey).Pairwise (fun a b => depth a ≤ depth b) ∧
      (∀ m k, Reaches x edges true src m k → depth k ≤ m) ∧
      ∀ s ∈ all, StepOf edges s ∧ (s.fromKey = [] ∧ depth s.graphNodeKey = 0 ∨
        ∃ r ∈ all, Joined edges true r s ∧ depth s.graphNodeKey = depth r.graphNodeKey + 1) := by
  have h := buildGraph_of edges true
  set g := buildGraph edges true
  have hturns : (g.nodes.map Endpoint.nodeKey).length < g.nodes.length + 1 := by simp
  obtain ⟨found, depth, hvisit, hdistinct, hall, hrooted, hnear, hsorted⟩ :=
    visit_spec (h.starts_nodup : (g.starts x src).Nodup) h.starts_mem h.neighbours_mem hturns
  have hkeys : (found.map g.step).map Step.graphNodeKey = found.map Found.key := by
    rw [List.map_map]
    exact List.map_congr_left fun f _ => g.step_key f
  refine ⟨found.map g.step, depth, ?_, ?_, ?_, ?_, ?_, ?_, ?_⟩
  · intro limit hlimit
    have hfull : (fun n : ℕ => decide (0 < limit) && decide (limit ≤ n)) = fun _ => false := by
      funext n
      rw [decide_eq_false (not_lt.2 hlimit), Bool.false_and]
    rw [followDirected]
    simp only [hfull]
    rw [hvisit]
  · intro limit hlimit
    have hfull : (fun n : ℕ => decide ((0 : ℤ) < limit) && decide ((limit : ℤ) ≤ n)) =
        fun n => decide (limit ≤ n) := by
      funext n
      simp [hlimit]
    rw [followDirected]
    simp only [hfull]
    rw [visit_limit _ _ _ (Nat.zero_le limit), hvisit, List.map_take, List.length_map]
  · rwa [hkeys]
  · intro k
    rw [hkeys, hall]
    exact exists_congr fun m => h.reaches_iff.symm
  · rwa [hkeys]
  · exact fun m k hreach => hnear m k (h.reaches_iff.1 hreach)
  · intro s hs
    obtain ⟨f, hf, rfl⟩ := List.mem_map.1 hs
    have hroot := hrooted f hf
    rw [Rooted] at hroot
    rw [g.step_key]
    cases hhop : f.hop with
    | none =>
        rw [hhop] at hroot
        obtain ⟨n, hn⟩ := h.nodeOf_of_mem (.inl hroot.1)
        exact ⟨h.stepOf hn, .inl ⟨by rw [Graph.step, hhop], hroot.2⟩⟩
    | some p =>
        obtain ⟨p, via⟩ := p
        rw [hhop] at hroot
        obtain ⟨hp, hedge, hdepth⟩ := hroot
        obtain ⟨e, he, -, hleads⟩ := h.mem_neighbours.1 hedge
        obtain ⟨n, hn⟩ := exists_nodeOf_of_leads he hleads
        obtain ⟨r, hr, rfl⟩ := List.mem_map.1 hp
        refine ⟨h.stepOf hn, .inr ⟨g.step r, List.mem_map_of_mem hr, h.joined hhop hedge, ?_⟩⟩
        rwa [g.step_key]

end Reachable

end WiseLabz.Topology
