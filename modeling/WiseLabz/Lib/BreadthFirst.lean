/-
**Breadth-first search.**

The nodes that are found stand in the order in which they are found, each with the edge by which it
was found; the queue is their end.  Nodes that are found later are no nearer to a start, so the
first node that the search is looking for is a nearest one, and a search that ends without one has
found all nodes that can be reached.

Main definitions:

* `Lib.BreadthFirst.State`, `Lib.BreadthFirst.expand` — what is found, and the edges of one node;
* `Lib.BreadthFirst.search` — **the search**;
* `Lib.BreadthFirst.back` — the way back from a node to a start;
* `Lib.BreadthFirst.Walk`, `Lib.BreadthFirst.Trail` — what can be reached, and by which edges.

Main results:

* `Lib.BreadthFirst.search_some` — **the node that is found is a nearest one**;
* `Lib.BreadthFirst.search_none` — a search without a result has found everything;
* `Lib.BreadthFirst.back_trail` — the way back is a way, and no longer than need be.
-/

import Mathlib.Data.List.Nodup
import Mathlib.Data.List.Perm.Subperm
import Mathlib.Data.Set.Function
import Mathlib.Order.Basic

set_option relaxedAutoImplicit false
set_option autoImplicit false

namespace Lib.BreadthFirst

/-! ### The search -/

/-- A node that is found, with the node and the edge from which it was found. -/
structure Found (K L : Type) where
  key : K
  hop : Option (K × L)

/-- What is found, and what is still to be looked at. -/
structure State (K L : Type) where
  found : List (Found K L)
  queue : List K

variable {K L : Type}

def State.keys (s : State K L) : List K := s.found.map Found.key

/-- The starts, which are found without an edge. -/
def start (starts : List K) : State K L := ⟨starts.map fun k => ⟨k, none⟩, starts⟩

variable [DecidableEq K]

/-- A neighbour is found, if it is new. -/
def discover (cur : K) (s : State K L) (nb : K × L) : State K L :=
  if nb.1 ∈ s.keys then s
  else ⟨s.found ++ [⟨nb.1, some (cur, nb.2)⟩], s.queue ++ [nb.1]⟩

/-- All neighbours of a node are found. -/
def expand (adj : K → List (K × L)) (cur : K) (s : State K L) : State K L :=
  (adj cur).foldl (discover cur) s

/-- **The search** for a node, in at most so many turns. -/
def search (adj : K → List (K × L)) (stop : K → Bool) : ℕ → State K L → State K L × Option K
  | 0, s => (s, none)
  | turns + 1, s =>
      match s.queue with
      | [] => (s, none)
      | cur :: queue =>
          if stop cur then (s, some cur)
          else search adj stop turns (expand adj cur ⟨s.found, queue⟩)

/-- The way back from a node, in at most so many steps. -/
def back (found : List (Found K L)) : ℕ → K → List (Found K L)
  | 0, _ => []
  | steps + 1, k =>
      match found.find? fun f => f.key = k with
      | none => []
      | some f =>
          f :: match f.hop with
            | none => []
            | some (p, _) => back found steps p

/-! ### What can be reached -/

omit [DecidableEq K] in
/-- A node that so many edges lead to. -/
inductive Walk (adj : K → List (K × L)) (starts : List K) : ℕ → K → Prop
  | start {k : K} : k ∈ starts → Walk adj starts 0 k
  | step {n : ℕ} {a : K} {nb : K × L} : Walk adj starts n a → nb ∈ adj a →
      Walk adj starts (n + 1) nb.1

/-- A way back from a node to a start, along the edges by which the nodes are found. -/
def Trail (adj : K → List (K × L)) (starts : List K) : List (Found K L) → Prop
  | [] => False
  | [f] => f.hop = none ∧ f.key ∈ starts
  | f :: g :: rest =>
      (∃ l, f.hop = some (g.key, l) ∧ (f.key, l) ∈ adj g.key) ∧ Trail adj starts (g :: rest)

omit [DecidableEq K] in
theorem Trail.isChain {adj : K → List (K × L)} {starts : List K} {trail : List (Found K L)}
    (h : Trail adj starts trail) :
    trail.IsChain (fun f g => ∃ l, f.hop = some (g.key, l) ∧ (f.key, l) ∈ adj g.key) ∧
      ∃ f ∈ trail.getLast?, f.hop = none ∧ f.key ∈ starts := by
  induction trail with
  | nil => cases h
  | cons f trail ih =>
      cases trail with
      | nil => exact ⟨.singleton f, f, rfl, h⟩
      | cons g rest =>
          obtain ⟨hjoined, htrail⟩ := h
          obtain ⟨hchain, hlast⟩ := ih htrail
          refine ⟨.cons_cons hjoined hchain, ?_⟩
          rwa [List.getLast?_cons_cons]

omit [DecidableEq K] in
theorem Trail.mem {adj : K → List (K × L)} {starts : List K} {trail : List (Found K L)}
    (h : Trail adj starts trail) {f : Found K L} (hf : f ∈ trail) :
    f.key ∈ starts ∨ ∃ a, ∃ nb ∈ adj a, nb.1 = f.key := by
  induction trail with
  | nil => cases h
  | cons g trail ih =>
      cases trail with
      | nil =>
          obtain rfl := List.mem_singleton.1 hf
          exact .inl h.2
      | cons g' rest =>
          obtain ⟨⟨l, -, hedge⟩, htrail⟩ := h
          rcases List.mem_cons.1 hf with rfl | hf
          · exact .inr ⟨_, _, hedge, rfl⟩
          · exact ih htrail hf

/-! ### What every turn keeps -/

variable {adj : K → List (K × L)} {starts : List K}

omit [DecidableEq K] in
/-- How a node was found: it is a start, or it was found from a node that is nearer. -/
def Rooted (adj : K → List (K × L)) (starts : List K) (keys : List K) (depth : K → ℕ)
    (f : Found K L) : Prop :=
  match f.hop with
  | none => f.key ∈ starts ∧ depth f.key = 0
  | some (p, l) => p ∈ keys ∧ (f.key, l) ∈ adj p ∧ depth f.key = depth p + 1

/-- What holds while the edges of `cur` are looked at; the nodes of `done` have been before it. -/
structure Growing (adj : K → List (K × L)) (starts done : List K) (cur : K) (depth : K → ℕ)
    (s : State K L) : Prop where
  keys : s.keys = done ++ cur :: s.queue
  distinct : s.keys.Nodup
  begun : ∀ k ∈ starts, k ∈ s.keys ∧ depth k = 0
  rooted : ∀ f ∈ s.found, Rooted adj starts s.keys depth f
  sorted : s.keys.Pairwise fun a b => depth a ≤ depth b
  closed : ∀ a ∈ done, ∀ nb ∈ adj a, nb.1 ∈ s.keys ∧ depth nb.1 ≤ depth a + 1
  near : ∀ k ∈ s.keys, depth k ≤ depth cur + 1

/-- What holds between two turns. -/
structure Inv (adj : K → List (K × L)) (starts done : List K) (depth : K → ℕ) (s : State K L) :
    Prop where
  keys : s.keys = done ++ s.queue
  distinct : s.keys.Nodup
  begun : ∀ k ∈ starts, k ∈ s.keys ∧ depth k = 0
  rooted : ∀ f ∈ s.found, Rooted adj starts s.keys depth f
  sorted : s.keys.Pairwise fun a b => depth a ≤ depth b
  closed : ∀ a ∈ done, ∀ nb ∈ adj a, nb.1 ∈ s.keys ∧ depth nb.1 ≤ depth a + 1
  near : ∀ cur ∈ s.queue.head?, ∀ k ∈ s.keys, depth k ≤ depth cur + 1

omit [DecidableEq K] in
theorem start_keys (starts : List K) : (start starts : State K L).keys = starts := by
  simp only [State.keys, start, List.map_map]
  exact List.map_id _

omit [DecidableEq K] in
theorem inv_start (hstarts : starts.Nodup) :
    Inv adj starts [] (fun _ => 0) (start starts : State K L) where
  keys := start_keys starts
  distinct := by rwa [start_keys]
  begun := fun k hk => ⟨by rwa [start_keys], rfl⟩
  rooted := by
    intro f hf
    obtain ⟨k, hk, rfl⟩ := List.mem_map.1 hf
    exact ⟨hk, rfl⟩
  sorted := List.pairwise_of_forall fun _ _ => le_rfl
  closed := by simp
  near := by simp

/-- **A neighbour of `cur` is found.** -/
theorem Growing.discover {done : List K} {cur : K} {depth : K → ℕ} {s : State K L}
    (h : Growing adj starts done cur depth s) {nb : K × L} (hnb : nb ∈ adj cur) :
    ∃ depth', Growing adj starts done cur depth' (discover cur s nb) ∧
      nb.1 ∈ (discover cur s nb).keys ∧ (∀ k ∈ s.keys, depth' k = depth k) ∧
      ∀ k ∈ s.keys, k ∈ (BreadthFirst.discover cur s nb).keys := by
  rw [BreadthFirst.discover]
  by_cases hmem : nb.1 ∈ s.keys
  · rw [if_pos hmem]
    exact ⟨depth, h, hmem, fun _ _ => rfl, fun _ hk => hk⟩
  · rw [if_neg hmem]
    have hcur : cur ∈ s.keys := by simp [h.keys]
    have hkeys : State.keys (L := L) ⟨s.found ++ [⟨nb.1, some (cur, nb.2)⟩], s.queue ++ [nb.1]⟩ =
        s.keys ++ [nb.1] := by simp [State.keys]
    have hold : ∀ k ∈ s.keys, Function.update depth nb.1 (depth cur + 1) k = depth k :=
      fun k hk => Function.update_of_ne (fun heq => hmem (by rwa [← heq])) _ _
    have hnew : Function.update depth nb.1 (depth cur + 1) nb.1 = depth cur + 1 :=
      Function.update_self ..
    refine ⟨Function.update depth nb.1 (depth cur + 1), ⟨?_, ?_, ?_, ?_, ?_, ?_, ?_⟩, ?_, hold, ?_⟩
    · rw [hkeys, h.keys]
      simp
    · rw [hkeys]
      exact List.nodup_append.2 ⟨h.distinct, List.nodup_singleton _, by
        rintro k hk _ (_ | ⟨_, hnil⟩) rfl
        · exact hmem hk
        · cases hnil⟩
    · intro k hk
      obtain ⟨hk, hdepth⟩ := h.begun k hk
      rw [hkeys]
      exact ⟨List.mem_append_left _ hk, (hold k hk).trans hdepth⟩
    · rw [hkeys]
      intro f hf
      rcases List.mem_append.1 hf with hf | hf
      · have hrooted := h.rooted f hf
        have hfkey : f.key ∈ s.keys := List.mem_map_of_mem hf
        rw [Rooted] at hrooted ⊢
        cases hhop : f.hop with
        | none =>
            rw [hhop] at hrooted
            exact ⟨hrooted.1, (hold _ hfkey).trans hrooted.2⟩
        | some p =>
            rw [hhop] at hrooted
            obtain ⟨hp, hedge, hdepth⟩ := hrooted
            refine ⟨List.mem_append_left _ hp, hedge, ?_⟩
            rw [hold _ hfkey, hold _ hp, hdepth]
      · obtain rfl := List.mem_singleton.1 hf
        refine ⟨List.mem_append_left _ hcur, hnb, ?_⟩
        rw [hnew, hold _ hcur]
    · rw [hkeys]
      refine List.pairwise_append.2 ⟨?_, List.pairwise_singleton _ _, ?_⟩
      · refine h.sorted.imp_of_mem fun ha hb hle => ?_
        rwa [hold _ ha, hold _ hb]
      · rintro k hk _ (_ | ⟨_, hnil⟩)
        · rw [hnew, hold _ hk]
          exact h.near k hk
        · cases hnil
    · intro a ha nb' hnb'
      obtain ⟨hkey, hle⟩ := h.closed a ha nb' hnb'
      have ha' : a ∈ s.keys := by simp [h.keys, ha]
      rw [hkeys, hold _ hkey, hold _ ha']
      exact ⟨List.mem_append_left _ hkey, hle⟩
    · intro k hk
      rw [hkeys] at hk
      rw [hold _ hcur]
      rcases List.mem_append.1 hk with hk | hk
      · rw [hold _ hk]
        exact h.near k hk
      · rw [List.mem_singleton.1 hk, hnew]
    · rw [hkeys]
      exact List.mem_append_right _ (List.mem_singleton_self _)
    · rw [hkeys]
      exact fun k hk => List.mem_append_left _ hk

/-- **All neighbours of `cur` are found.** -/
theorem Growing.foldl_discover {done : List K} {cur : K} {depth : K → ℕ} {s : State K L}
    (h : Growing adj starts done cur depth s) {nbs : List (K × L)}
    (hnbs : ∀ nb ∈ nbs, nb ∈ adj cur) :
    ∃ depth', Growing adj starts done cur depth' (nbs.foldl (BreadthFirst.discover cur) s) ∧
      ∀ nb ∈ nbs, nb.1 ∈ (nbs.foldl (BreadthFirst.discover cur) s).keys := by
  have hmono : ∀ (nbs : List (K × L)) (s : State K L) (k : K), k ∈ s.keys →
      k ∈ (nbs.foldl (BreadthFirst.discover cur) s).keys := by
    intro nbs
    induction nbs with
    | nil => exact fun _ _ hk => hk
    | cons nb nbs ih =>
        intro s k hk
        refine ih _ _ ?_
        rw [BreadthFirst.discover]
        split
        · exact hk
        · simpa [State.keys] using .inl (List.mem_map.1 hk)
  induction nbs generalizing s depth with
  | nil => exact ⟨depth, h, fun nb hnb => absurd hnb List.not_mem_nil⟩
  | cons nb nbs ih =>
      obtain ⟨depth₁, h₁, hnb, -, -⟩ := h.discover (hnbs nb List.mem_cons_self)
      obtain ⟨depth₂, h₂, hall⟩ := ih h₁ fun nb' hnb' => hnbs nb' (List.mem_cons_of_mem _ hnb')
      refine ⟨depth₂, h₂, ?_⟩
      rintro nb' (_ | ⟨_, hnb'⟩)
      · exact hmono nbs _ _ hnb
      · exact hall nb' hnb'

/-- **What one turn keeps.** -/
theorem Inv.expand {done : List K} {cur : K} {queue : List K} {depth : K → ℕ} {s : State K L}
    (h : Inv adj starts done depth s) (hqueue : s.queue = cur :: queue) :
    ∃ depth', Inv adj starts (done ++ [cur]) depth' (expand adj cur ⟨s.found, queue⟩) := by
  have hgrowing : Growing adj starts done cur depth (⟨s.found, queue⟩ : State K L) :=
    ⟨h.keys.trans (by rw [hqueue]), h.distinct, h.begun, h.rooted, h.sorted, h.closed,
      h.near cur (by rw [hqueue]; rfl)⟩
  obtain ⟨depth', hgrown, hall⟩ := hgrowing.foldl_discover fun nb (hnb : nb ∈ adj cur) => hnb
  refine ⟨depth', ?_, hgrown.distinct, hgrown.begun, hgrown.rooted, hgrown.sorted, ?_, ?_⟩
  · exact hgrown.keys.trans (by rw [List.append_assoc]; rfl)
  · intro a ha nb hnb
    rcases List.mem_append.1 ha with ha | ha
    · exact hgrown.closed a ha nb hnb
    · obtain rfl := List.mem_singleton.1 ha
      exact ⟨hall nb hnb, hgrown.near _ (hall nb hnb)⟩
  · intro next hnext k hk
    have hle : depth' cur ≤ depth' next := by
      have hsorted := hgrown.sorted
      rw [hgrown.keys] at hsorted
      exact List.rel_of_pairwise_cons (List.pairwise_append.1 hsorted).2.1
        (List.mem_of_mem_head? hnext)
    exact (hgrown.near k hk).trans (Nat.succ_le_succ hle)

/-! ### What is found -/

/-- A node that can be reached in fewer steps than the next one is deep is found, and no deeper. -/
theorem Inv.found_of_walk {done : List K} {depth : K → ℕ} {s : State K L}
    (h : Inv adj starts done depth s) {n : ℕ} {k : K} (hwalk : Walk adj starts n k)
    (hnext : ∀ cur ∈ s.queue.head?, n ≤ depth cur) : k ∈ s.keys ∧ depth k ≤ n := by
  induction hwalk with
  | start hk =>
      obtain ⟨hk, hdepth⟩ := h.begun _ hk
      exact ⟨hk, hdepth.le⟩
  | @step n a nb _ hedge ih =>
      obtain ⟨ha, hle⟩ := ih fun cur hcur => (Nat.le_succ n).trans (hnext cur hcur)
      have hdone : a ∈ done := by
        rw [h.keys] at ha
        rcases List.mem_append.1 ha with ha | ha
        · exact ha
        · cases hqueue : s.queue with
          | nil =>
              rw [hqueue] at ha
              cases ha
          | cons cur queue =>
              have hcur := hnext cur (by rw [hqueue]; rfl)
              have hsorted := h.sorted
              rw [h.keys, hqueue] at hsorted
              rw [hqueue] at ha
              rcases List.mem_cons.1 ha with rfl | ha
              · omega
              · have := List.rel_of_pairwise_cons (List.pairwise_append.1 hsorted).2.1 ha
                omega
      obtain ⟨hkey, hdepth⟩ := h.closed a hdone nb hedge
      exact ⟨hkey, hdepth.trans (Nat.succ_le_succ hle)⟩

omit [DecidableEq K] in
/-- Only what is a start or an end of an edge is found. -/
theorem Inv.mem_nodes {done nodes : List K} {depth : K → ℕ} {s : State K L}
    (h : Inv adj starts done depth s) (hstarts : ∀ k ∈ starts, k ∈ nodes)
    (hadj : ∀ a, ∀ nb ∈ adj a, nb.1 ∈ nodes) {k : K} (hk : k ∈ s.keys) : k ∈ nodes := by
  obtain ⟨f, hf, rfl⟩ := List.mem_map.1 hk
  have hrooted := h.rooted f hf
  rw [Rooted] at hrooted
  cases hhop : f.hop with
  | none =>
      rw [hhop] at hrooted
      exact hstarts _ hrooted.1
  | some p =>
      rw [hhop] at hrooted
      exact hadj _ _ hrooted.2.1

omit [DecidableEq K] in
/-- No more turns are needed than there are nodes. -/
theorem Inv.length_done {done nodes : List K} {depth : K → ℕ} {s : State K L}
    (h : Inv adj starts done depth s) (hstarts : ∀ k ∈ starts, k ∈ nodes)
    (hadj : ∀ a, ∀ nb ∈ adj a, nb.1 ∈ nodes) : done.length ≤ nodes.length := by
  have hdistinct := h.distinct
  rw [h.keys] at hdistinct
  refine (List.Nodup.subperm (List.nodup_append.1 hdistinct).1 fun k hk => ?_).length_le
  refine h.mem_nodes hstarts hadj ?_
  rw [h.keys]
  exact List.mem_append_left _ hk

/-- **What a search keeps, and what its result is.** -/
theorem search_inv {stop : K → Bool} {nodes : List K}
    (hstarts : ∀ k ∈ starts, k ∈ nodes) (hadj : ∀ a, ∀ nb ∈ adj a, nb.1 ∈ nodes)
    {turns : ℕ} {done : List K} {depth : K → ℕ} {s : State K L}
    (h : Inv adj starts done depth s) (hstop : ∀ a ∈ done, stop a = false)
    (hturns : nodes.length < turns + done.length) :
    ∃ done' depth', Inv adj starts done' depth' (search adj stop turns s).1 ∧
      (∀ a ∈ done', stop a = false) ∧
      (search adj stop turns s).1.queue.head? = (search adj stop turns s).2 ∧
      ∀ k ∈ (search adj stop turns s).2, stop k = true := by
  induction turns generalizing done depth s with
  | zero =>
      have := h.length_done hstarts hadj
      omega
  | succ turns ih =>
      rw [search]
      cases hqueue : s.queue with
      | nil => exact ⟨done, depth, h, hstop, by rw [hqueue]; rfl, by simp⟩
      | cons cur queue =>
          simp only
          by_cases hcur : stop cur = true
          · rw [if_pos hcur]
            exact ⟨done, depth, h, hstop, by rw [hqueue]; rfl, by simpa using hcur⟩
          · rw [if_neg hcur]
            obtain ⟨depth', hnext⟩ := h.expand hqueue
            refine ih hnext ?_ ?_
            · intro a ha
              rcases List.mem_append.1 ha with ha | ha
              · exact hstop a ha
              · rw [List.mem_singleton.1 ha]
                exact Bool.eq_false_of_not_eq_true hcur
            · rw [List.length_append, List.length_singleton]
              omega

/-! ### The way back -/

/-- **The way back from a node** leads to a start, in as many steps as the node is deep. -/
theorem Inv.back_trail {done : List K} {depth : K → ℕ} {s : State K L}
    (h : Inv adj starts done depth s) {k : K} (hk : k ∈ s.keys) {steps : ℕ}
    (hsteps : depth k < steps) :
    Trail adj starts (back s.found steps k) ∧
      (back s.found steps k).head?.map Found.key = some k ∧
      (back s.found steps k).length = depth k + 1 ∧
      ∀ f ∈ back s.found steps k, f ∈ s.found := by
  induction steps generalizing k with
  | zero => omega
  | succ steps ih =>
      obtain ⟨f, hf, hfind⟩ : ∃ f ∈ s.found, s.found.find? (fun f => f.key = k) = some f := by
        cases hfind : s.found.find? fun f => f.key = k with
        | none =>
            obtain ⟨f, hf, rfl⟩ := List.mem_map.1 hk
            exact absurd (List.find?_eq_none.1 hfind f hf) (by simp)
        | some f => exact ⟨f, List.mem_of_find?_eq_some hfind, rfl⟩
      obtain rfl : f.key = k := by simpa using List.find?_some hfind
      have hrooted := h.rooted f hf
      rw [Rooted] at hrooted
      rw [back, hfind]
      cases hhop : f.hop with
      | none =>
          rw [hhop] at hrooted
          simp only [hhop]
          exact ⟨⟨hhop, hrooted.1⟩, rfl, by rw [hrooted.2]; rfl, by simpa using hf⟩
      | some p =>
          obtain ⟨p, l⟩ := p
          rw [hhop] at hrooted
          obtain ⟨hp, hedge, hdepth⟩ := hrooted
          obtain ⟨htrail, hhead, hlength, hmem⟩ := ih hp (by omega)
          simp only [hhop]
          refine ⟨?_, rfl, by rw [List.length_cons, hlength, hdepth], ?_⟩
          · cases hback : back s.found steps p with
            | nil =>
                rw [hback] at hhead
                cases hhead
            | cons g rest =>
                rw [hback] at hhead htrail
                obtain rfl : g.key = p := Option.some.inj hhead
                exact ⟨⟨l, hhop, hedge⟩, htrail⟩
          · rintro g (_ | ⟨_, hg⟩)
            · exact hf
            · exact hmem g hg

omit [DecidableEq K] in
/-- Every depth up to that of a node is that of one. -/
theorem Inv.exists_depth {done : List K} {depth : K → ℕ} {s : State K L}
    (h : Inv adj starts done depth s) {n : ℕ} {k : K} (hk : k ∈ s.keys) (hn : depth k = n)
    {j : ℕ} (hj : j ≤ n) : ∃ a ∈ s.keys, depth a = j := by
  induction n generalizing k with
  | zero => exact ⟨k, hk, hn.trans (Nat.le_zero.1 hj).symm⟩
  | succ n ih =>
      rcases Nat.lt_or_eq_of_le hj with hj | rfl
      · obtain ⟨f, hf, rfl⟩ := List.mem_map.1 hk
        have hrooted := h.rooted f hf
        rw [Rooted] at hrooted
        cases hhop : f.hop with
        | none =>
            rw [hhop] at hrooted
            exact absurd (hrooted.2.symm.trans hn) (Nat.succ_ne_zero n).symm
        | some p =>
            rw [hhop] at hrooted
            obtain ⟨hp, -, hdepth⟩ := hrooted
            exact ih hp (Nat.succ.inj (hdepth.symm.trans hn)) (Nat.lt_succ_iff.1 hj)
      · exact ⟨k, hk, hn⟩

omit [DecidableEq K] in
/-- A node is less deep than nodes are found. -/
theorem Inv.depth_lt {done : List K} {depth : K → ℕ} {s : State K L}
    (h : Inv adj starts done depth s) {k : K} (hk : k ∈ s.keys) : depth k < s.found.length := by
  have hsub : List.range (depth k + 1) ⊆ s.keys.map depth := fun j hj => by
    obtain ⟨a, ha, rfl⟩ := h.exists_depth hk rfl (Nat.lt_succ_iff.1 (List.mem_range.1 hj))
    exact List.mem_map_of_mem ha
  have hle := (List.nodup_range.subperm hsub).length_le
  simpa [State.keys, Nat.succ_le_iff] using hle

omit [DecidableEq K] in
/-- What is found can be reached, in as many steps as it is deep. -/
theorem Inv.walk {done : List K} {depth : K → ℕ} {s : State K L}
    (h : Inv adj starts done depth s) {n : ℕ} {k : K} (hk : k ∈ s.keys) (hn : depth k = n) :
    Walk adj starts n k := by
  induction n generalizing k with
  | zero =>
      obtain ⟨f, hf, rfl⟩ := List.mem_map.1 hk
      have hrooted := h.rooted f hf
      rw [Rooted] at hrooted
      cases hhop : f.hop with
      | none =>
          rw [hhop] at hrooted
          exact .start hrooted.1
      | some p =>
          rw [hhop] at hrooted
          exact absurd (hrooted.2.2.symm.trans hn) (Nat.succ_ne_zero _)
  | succ n ih =>
      obtain ⟨f, hf, rfl⟩ := List.mem_map.1 hk
      have hrooted := h.rooted f hf
      rw [Rooted] at hrooted
      cases hhop : f.hop with
      | none =>
          rw [hhop] at hrooted
          exact absurd (hrooted.2.symm.trans hn) (Nat.succ_ne_zero n).symm
      | some p =>
          rw [hhop] at hrooted
          obtain ⟨hp, hedge, hdepth⟩ := hrooted
          exact .step (ih hp (Nat.succ.inj (hdepth.symm.trans hn))) hedge

/-! ### What the search finds -/

section Results

variable {stop : K → Bool} {nodes : List K} {turns : ℕ}

/-- **The node that is found is a nearest one**: the way back leads to a start, and no node that
the search looks for can be reached in fewer steps. -/
theorem search_some (hdistinct : starts.Nodup) (hstarts : ∀ k ∈ starts, k ∈ nodes)
    (hadj : ∀ a, ∀ nb ∈ adj a, nb.1 ∈ nodes) (hturns : nodes.length < turns) {s : State K L} {k : K}
    (h : search adj stop turns (start starts) = (s, some k)) :
    stop k = true ∧ Trail adj starts (back s.found s.found.length k) ∧
      (back s.found s.found.length k).head?.map Found.key = some k ∧
      (∀ f ∈ back s.found s.found.length k, f ∈ s.found) ∧
      ∀ n t, Walk adj starts n t → stop t = true →
        (back s.found s.found.length k).length ≤ n + 1 := by
  have hstart : Inv adj starts [] (fun _ => 0) (start starts : State K L) := inv_start hdistinct
  obtain ⟨done, depth, hinv, hstop, hhead, hfound⟩ := search_inv hstarts hadj
    hstart (by simp) (by simpa using hturns)
  rw [h] at hinv hhead hfound
  have hqueue : k ∈ s.queue := List.mem_of_mem_head? hhead
  have hk : k ∈ s.keys := by
    rw [hinv.keys]
    exact List.mem_append_right _ hqueue
  obtain ⟨htrail, hkey, hlength, hmem⟩ := hinv.back_trail hk (hinv.depth_lt hk)
  refine ⟨hfound k rfl, htrail, hkey, hmem, fun n t hwalk ht => ?_⟩
  rw [hlength]
  refine Nat.succ_le_succ (not_lt.1 fun hlt => ?_)
  obtain ⟨hkeys, hdepth⟩ := hinv.found_of_walk hwalk fun cur hcur => by
    obtain rfl : k = cur := Option.some.inj (hhead.symm.trans hcur)
    exact hlt.le
  rw [hinv.keys] at hkeys
  rcases List.mem_append.1 hkeys with hdone | hlater
  · rw [hstop t hdone] at ht
    cases ht
  · have hsorted := hinv.sorted
    rw [hinv.keys] at hsorted
    cases hcons : s.queue with
    | nil =>
        rw [hcons] at hqueue
        cases hqueue
    | cons cur queue =>
        rw [hcons] at hhead hlater hsorted
        obtain rfl : cur = k := Option.some.inj hhead
        rcases List.mem_cons.1 hlater with rfl | hlater
        · omega
        · have := List.rel_of_pairwise_cons (List.pairwise_append.1 hsorted).2.1 hlater
          omega

/-- **A search without a result has found all that can be reached**, and nothing that it looks
for. -/
theorem search_none (hdistinct : starts.Nodup) (hstarts : ∀ k ∈ starts, k ∈ nodes)
    (hadj : ∀ a, ∀ nb ∈ adj a, nb.1 ∈ nodes) (hturns : nodes.length < turns) {s : State K L}
    (h : search adj stop turns (start starts) = (s, none)) {n : ℕ} {t : K}
    (hwalk : Walk adj starts n t) : t ∈ s.keys ∧ stop t = false := by
  have hstart : Inv adj starts [] (fun _ => 0) (start starts : State K L) := inv_start hdistinct
  have hbefore : ∀ a ∈ ([] : List K), stop a = false := by simp
  obtain ⟨done, depth, hinv, hstop, hhead, -⟩ := search_inv hstarts hadj
    hstart hbefore (by simpa using hturns)
  rw [h] at hinv hhead
  have hqueue : s.queue = [] := List.head?_eq_none_iff.1 hhead
  obtain ⟨hkeys, -⟩ := hinv.found_of_walk hwalk fun cur hcur => by
    rw [hhead] at hcur
    cases hcur
  refine ⟨hkeys, hstop t ?_⟩
  rwa [hinv.keys, hqueue, List.append_nil] at hkeys

end Results

/-! ### All nodes -/

/-- All nodes that can be reached, in the order in which they are found, until enough are there; and
whether some are left out. -/
def visit (adj : K → List (K × L)) (full : ℕ → Bool) : ℕ → State K L → List (Found K L) →
    List (Found K L) × Bool
  | 0, _, steps => (steps, false)
  | turns + 1, s, steps =>
      match s.queue with
      | [] => (steps, false)
      | cur :: queue =>
          if full steps.length then (steps, true)
          else visit adj full turns (expand adj cur ⟨s.found, queue⟩)
            (steps ++ [(s.found.find? fun f => f.key = cur).getD ⟨cur, none⟩])

theorem expand_found (adj : K → List (K × L)) (cur : K) (s : State K L) :
    ∃ new, (expand adj cur s).found = s.found ++ new := by
  rw [expand]
  generalize adj cur = nbs
  induction nbs generalizing s with
  | nil => exact ⟨[], (List.append_nil _).symm⟩
  | cons nb nbs ih =>
      obtain ⟨new, hnew⟩ := ih (discover cur s nb)
      rw [List.foldl_cons, hnew, discover]
      split
      · exact ⟨new, rfl⟩
      · exact ⟨_, List.append_assoc ..⟩

/-- The next node of the queue has been found. -/
theorem Inv.found_queue {done : List K} {cur : K} {queue : List K} {depth : K → ℕ} {s : State K L}
    (h : Inv adj starts done depth s) (hqueue : s.queue = cur :: queue)
    {steps rest : List (Found K L)} (hfound : s.found = steps ++ rest)
    (hsteps : steps.map Found.key = done) :
    ∃ f rest', f.key = cur ∧ s.found = (steps ++ [f]) ++ rest' ∧
      s.found.find? (fun f => f.key = cur) = some f := by
  have hkeys := h.keys
  rw [State.keys, hfound, List.map_append, hsteps, hqueue] at hkeys
  have hrest := List.append_cancel_left hkeys
  cases rest with
  | nil => cases hrest
  | cons f rest' =>
      obtain ⟨hkey, -⟩ := List.cons.inj hrest
      refine ⟨f, rest', hkey, by rw [hfound, List.append_assoc]; rfl, ?_⟩
      have hnone : steps.find? (fun f => f.key = cur) = none := by
        refine List.find?_eq_none.2 fun g hg hgkey => ?_
        have hdistinct := h.distinct
        rw [h.keys, hqueue] at hdistinct
        refine (List.nodup_append.1 hdistinct).2.2 g.key ?_ cur List.mem_cons_self
          (of_decide_eq_true hgkey)
        exact hsteps ▸ List.mem_map_of_mem hg
      rw [hfound, List.find?_append, hnone, List.find?_cons_of_pos (by simpa using hkey)]
      rfl

/-- **A walk without a limit tells all that is found.** -/
theorem visit_all {nodes : List K} (hstarts : ∀ k ∈ starts, k ∈ nodes)
    (hadj : ∀ a, ∀ nb ∈ adj a, nb.1 ∈ nodes) {turns : ℕ} {done : List K} {depth : K → ℕ}
    {s : State K L} {steps rest : List (Found K L)} (h : Inv adj starts done depth s)
    (hfound : s.found = steps ++ rest) (hsteps : steps.map Found.key = done)
    (hturns : nodes.length < turns + done.length) :
    ∃ s' depth', Inv adj starts s'.keys depth' s' ∧
      visit adj (fun _ => false) turns s steps = (s'.found, false) := by
  induction turns generalizing s steps rest done depth with
  | zero =>
      have := h.length_done hstarts hadj
      omega
  | succ turns ih =>
      rw [visit]
      cases hqueue : s.queue with
      | nil =>
          have hkeys := h.keys
          rw [hqueue, List.append_nil] at hkeys
          refine ⟨s, depth, hkeys ▸ h, ?_⟩
          rw [State.keys, hfound, List.map_append, hsteps] at hkeys
          have hrest := List.map_eq_nil_iff.1 (List.self_eq_append_right.1 hkeys.symm)
          rw [hfound, hrest, List.append_nil]
      | cons cur queue =>
          obtain ⟨f, rest', hkey, hsplit, hfind⟩ := h.found_queue hqueue hfound hsteps
          obtain ⟨depth', hnext⟩ := h.expand hqueue
          obtain ⟨new, hnew⟩ := expand_found adj cur (⟨s.found, queue⟩ : State K L)
          simp only [hfind, Option.getD_some, Bool.false_eq_true, if_false]
          have hrest :
              (expand adj cur ⟨s.found, queue⟩).found = (steps ++ [f]) ++ (rest' ++ new) := by
            rw [hnew, hsplit]
            simp only [List.append_assoc]
          refine ih hnext hrest ?_ ?_
          · rw [List.map_append, hsteps, List.map_singleton, hkey]
          · rw [List.length_append, List.length_singleton]
            omega

/-- **A walk without a limit tells every node that can be reached, once, and the nearest ones
first.** -/
theorem visit_spec {nodes : List K} (hdistinct : starts.Nodup) (hstarts : ∀ k ∈ starts, k ∈ nodes)
    (hadj : ∀ a, ∀ nb ∈ adj a, nb.1 ∈ nodes) {turns : ℕ} (hturns : nodes.length < turns) :
    ∃ all depth, visit adj (fun _ => false) turns (start starts) [] = (all, false) ∧
      (all.map Found.key).Nodup ∧
      (∀ k, k ∈ all.map Found.key ↔ ∃ n, Walk adj starts n k) ∧
      (∀ f ∈ all, Rooted adj starts (all.map Found.key) depth f) ∧
      (∀ n k, Walk adj starts n k → depth k ≤ n) ∧
      (all.map Found.key).Pairwise fun a b => depth a ≤ depth b := by
  have hstart : Inv adj starts [] (fun _ => 0) (start starts : State K L) := inv_start hdistinct
  obtain ⟨s, depth, hinv, hvisit⟩ := visit_all hstarts hadj
    hstart (List.nil_append _).symm List.map_nil (by simpa using hturns)
  have hqueue : s.queue = [] := List.self_eq_append_right.1 hinv.keys
  have hfound : ∀ {n k}, Walk adj starts n k → k ∈ s.keys ∧ depth k ≤ n := fun hwalk =>
    hinv.found_of_walk hwalk (by simp [hqueue])
  exact ⟨s.found, depth, hvisit, hinv.distinct,
    fun k => ⟨fun hk => ⟨_, hinv.walk hk rfl⟩, fun ⟨_, hwalk⟩ => (hfound hwalk).1⟩, hinv.rooted,
    fun _ _ hwalk => (hfound hwalk).2, hinv.sorted⟩

/-- The steps of a walk stay. -/
theorem visit_extends (adj : K → List (K × L)) (full : ℕ → Bool) (turns : ℕ) (s : State K L)
    (steps : List (Found K L)) : ∃ more, (visit adj full turns s steps).1 = steps ++ more := by
  induction turns generalizing s steps with
  | zero => exact ⟨[], (List.append_nil _).symm⟩
  | succ turns ih =>
      rw [visit]
      split
      · exact ⟨[], (List.append_nil _).symm⟩
      · split
        · exact ⟨[], (List.append_nil _).symm⟩
        · obtain ⟨more, hmore⟩ := ih (expand adj _ ⟨s.found, _⟩) (steps ++ [_])
          exact ⟨_, hmore.trans (List.append_assoc ..)⟩

/-- **A walk with a limit tells the first steps of the walk without one**, and whether there are
more. -/
theorem visit_limit (adj : K → List (K × L)) {limit : ℕ} (turns : ℕ) (s : State K L)
    {steps : List (Found K L)} (hsteps : steps.length ≤ limit) :
    visit adj (fun n => limit ≤ n) turns s steps =
      ((visit adj (fun _ => false) turns s steps).1.take limit,
        decide (limit < (visit adj (fun _ => false) turns s steps).1.length)) := by
  induction turns generalizing s steps with
  | zero =>
      refine Prod.ext (List.take_of_length_le hsteps).symm ?_
      exact (decide_eq_false (not_lt.2 hsteps)).symm
  | succ turns ih =>
      rw [visit, visit]
      cases hqueue : s.queue with
      | nil =>
          refine Prod.ext (List.take_of_length_le hsteps).symm ?_
          exact (decide_eq_false (not_lt.2 hsteps)).symm
      | cons cur queue =>
          simp only [Bool.false_eq_true, if_false]
          by_cases hfull : limit ≤ steps.length
          · rw [if_pos (decide_eq_true hfull)]
            obtain ⟨more, hmore⟩ := visit_extends adj (fun _ => false) turns
              (expand adj cur ⟨s.found, queue⟩)
              (steps ++ [(s.found.find? fun f => f.key = cur).getD ⟨cur, none⟩])
            rw [hmore, List.append_assoc, List.take_append_of_le_length hfull,
              List.take_of_length_le hsteps]
            refine Prod.ext rfl (decide_eq_true ?_).symm
            simp only [List.length_append, List.length_cons]
            omega
          · rw [if_neg (by simpa using hfull)]
            refine ih (expand adj cur ⟨s.found, queue⟩) ?_
            rw [List.length_append, List.length_singleton]
            omega

end Lib.BreadthFirst
