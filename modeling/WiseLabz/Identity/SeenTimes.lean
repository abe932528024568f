/-
**When an identity was seen.**

A reconciliation computes the instants at which an identity was seen first and last from the cluster
that claims the identity.  An earlier instant in the stored row is kept for the first, but the last
one is the newest instant of the cluster, whatever the row said: where the member that was observed
last is not in the cluster any more, gone or of a connector that could not be read, the identity
stays active and the instant at which it was seen last goes back.

Main definitions:

* `Identity.FirstSeenKept`, `Identity.LastSeenKept` — over a step no identity that is active before
  and after it has been seen first later, or last earlier;
* `Identity.SeenAgain` — a cluster has an observation that is not older than an instant;
* `Identity.ClaimsSeenAgain` — each cluster that claims an active identity has such an observation.

Main results:

* `Identity.active_after` — what an active identity is after a reconciliation;
* `Identity.seen_times` — **when the instants never move the wrong way** in a run.
-/

import WiseLabz.Identity.Lifecycle

set_option relaxedAutoImplicit false
set_option autoImplicit false

namespace WiseLabz.Identity

open Lib

/-! ### What is shown -/

/-- An identity is neither merged nor gone. -/
def EntityIdentity.Active (e : EntityIdentity) : Prop := e.mergedInto = none ∧ e.goneAt = none

/-- No identity that stays active is seen first later than before.  The order is that of the stored
texts: of two clock texts in one second the smaller one may be the later instant. -/
def FirstSeenKept (w : World) (_ : Event) (w' : World) : Prop :=
  ∀ e ∈ w.db.entities, ∀ e' ∈ w'.db.entities, e'.id = e.id → e.Active → e'.Active →
    e'.firstSeen ≤ e.firstSeen

/-- No identity that stays active is seen last earlier than before. -/
def LastSeenKept (w : World) (_ : Event) (w' : World) : Prop :=
  ∀ e ∈ w.db.entities, ∀ e' ∈ w'.db.entities, e'.id = e.id → e.Active → e'.Active →
    e.lastSeen ≤ e'.lastSeen

/-- A cluster has an observation that is not older than an instant; if no observation has an
instant, it is the clock that tells. -/
def SeenAgain (last : Bytes) (cluster : Cluster) (now : Bytes) : Prop :=
  (∃ m ∈ cluster, m.observedAt ≠ [] ∧ last ≤ m.observedAt) ∨
    (∀ m ∈ cluster, m.observedAt = []) ∧ last ≤ now

/-- Each cluster that claims an active identity has an observation that is not older than the
instant at which the identity was seen last. -/
def ClaimsSeenAgain (w : World) : Event → Prop
  | .reconcile clusters _ newIds now =>
      let clusters := sortIdentityClusters clusters
      let choice := chooseIdentityIDs clusters newIds w.db.members w.db.entities
      ∀ c ∈ clusters, ∀ e ∈ w.db.entities, e.id = chosenID choice.chosen c → e.Active →
        SeenAgain e.lastSeen c now
  | .purge _ => True

/-! ### The instants of a cluster -/

/-- The newest instant of the observations. -/
theorem le_newest {x : Bytes} {cluster : Cluster} {last : Bytes} :
    x ≤ cluster.foldl (fun last m => if last < m.observedAt then m.observedAt else last) last ↔
      x ≤ last ∨ ∃ m ∈ cluster, x ≤ m.observedAt := by
  induction cluster generalizing last with
  | nil => simp
  | cons m cluster ih =>
      rw [List.foldl_cons, ih]
      simp only [List.mem_cons, exists_eq_or_imp, ← or_assoc]
      refine or_congr_left ?_
      split
      · next hlt =>
          have hle : last ≤ m.observedAt := Std.le_of_lt hlt
          exact ⟨Or.inr, fun h => h.elim (fun h => Std.le_trans h hle) id⟩
      · next hge =>
          have hle : m.observedAt ≤ last := Std.not_lt.1 hge
          exact ⟨Or.inl, fun h => h.elim id fun h => Std.le_trans h hle⟩

/-- A cluster without instants has no newest one. -/
theorem newest_eq_nil {cluster : Cluster} :
    cluster.foldl (fun last m => if last < m.observedAt then m.observedAt else last) [] = [] ↔
      ∀ m ∈ cluster, m.observedAt = [] := by
  constructor
  · intro hnil m hm
    have hle : m.observedAt ≤
        cluster.foldl (fun last m => if last < m.observedAt then m.observedAt else last) [] :=
      le_newest.2 (Or.inr ⟨m, hm, Std.le_refl _⟩)
    rw [hnil] at hle
    exact List.le_nil.1 hle
  · intro hblank
    rcases le_newest.1 (Std.le_refl _) with hle | ⟨m, hm, hle⟩
    · exact List.le_nil.1 hle
    · rw [hblank m hm] at hle
      exact List.le_nil.1 hle

/-- The last instant of a cluster. -/
theorem le_clusterIdentity_lastSeen {x : Bytes} {cluster : Cluster} {id : Bytes}
    {entities : List EntityIdentity} {now : Bytes} :
    x ≤ (clusterIdentity cluster id entities now).lastSeen ↔ SeenAgain x cluster now := by
  let newest := cluster.foldl (fun last m => if last < m.observedAt then m.observedAt else last) []
  change x ≤ (if newest = [] then now else newest) ↔ _
  split
  · next hnil =>
      have hblank := newest_eq_nil.1 hnil
      constructor
      · exact fun hle => Or.inr ⟨hblank, hle⟩
      · rintro (⟨m, hm, hne, -⟩ | ⟨-, hle⟩)
        · exact absurd (hblank m hm) hne
        · exact hle
  · next hne =>
      obtain ⟨o, ho, hinstant⟩ : ∃ m ∈ cluster, m.observedAt ≠ [] := by
        simpa using mt newest_eq_nil.2 hne
      -- what is not later than no instant is not later than any
      have hnil : x ≤ [] → SeenAgain x cluster now := by
        intro hle
        obtain rfl := List.le_nil.1 hle
        exact Or.inl ⟨o, ho, hinstant, List.nil_le _⟩
      constructor
      · intro hle
        rcases le_newest.1 hle with hle | ⟨m, hm, hle⟩
        · exact hnil hle
        · by_cases hblank : m.observedAt = []
          · exact hnil (hblank ▸ hle)
          · exact Or.inl ⟨m, hm, hblank, hle⟩
      · rintro (⟨m, hm, -, hle⟩ | ⟨hblank, -⟩)
        · exact le_newest.2 (Or.inr ⟨m, hm, hle⟩)
        · exact absurd (hblank o ho) hinstant

/-- The oldest instant of the observations and of the clock. -/
theorem le_oldest {x : Bytes} {cluster : Cluster} {first : Bytes} :
    x ≤ cluster.foldl (fun first m =>
        if m.observedAt ≠ [] ∧ m.observedAt < first then m.observedAt else first) first ↔
      x ≤ first ∧ ∀ m ∈ cluster, m.observedAt ≠ [] → x ≤ m.observedAt := by
  induction cluster generalizing first with
  | nil => simp
  | cons m cluster ih =>
      rw [List.foldl_cons, ih, List.forall_mem_cons, ← and_assoc]
      refine and_congr_left fun _ => ?_
      split
      · next hlt =>
          have hle : m.observedAt ≤ first := Std.le_of_lt hlt.2
          exact ⟨fun h => ⟨Std.le_trans h hle, fun _ => h⟩, fun h => h.2 hlt.1⟩
      · next hge =>
          refine ⟨fun h => ⟨h, fun hne => ?_⟩, And.left⟩
          exact Std.le_trans h (Std.not_lt.1 fun hlt => hge ⟨hne, hlt⟩)

/-- The first instant of a cluster, and of the identity that it claims. -/
theorem le_clusterIdentity_firstSeen {x : Bytes} {cluster : Cluster} {id : Bytes}
    {entities : List EntityIdentity} {now : Bytes} :
    x ≤ (clusterIdentity cluster id entities now).firstSeen ↔
      (∀ e, lookup EntityIdentity.id entities id = some e → x ≤ e.firstSeen) ∧
        x ≤ now ∧ ∀ m ∈ cluster, m.observedAt ≠ [] → x ≤ m.observedAt := by
  rw [← le_oldest, clusterIdentity]
  dsimp only
  cases he : lookup EntityIdentity.id entities id with
  | none => simp
  | some e =>
      simp only [Option.isSome_some, true_and, entityOf_eq he, Option.some_inj, forall_eq']
      split
      · next hlt => exact ⟨fun h => ⟨h, Std.le_trans h (Std.le_of_lt hlt)⟩, And.left⟩
      · next hge => exact ⟨fun h => ⟨Std.le_trans h (Std.not_lt.1 hge), h⟩, And.right⟩

/-- The first instant of a stored identity does not increase. -/
theorem clusterIdentity_firstSeen_le {cluster : Cluster} {id : Bytes}
    {entities : List EntityIdentity} {now : Bytes} {e : EntityIdentity}
    (he : lookup EntityIdentity.id entities id = some e) :
    (clusterIdentity cluster id entities now).firstSeen ≤ e.firstSeen :=
  (le_clusterIdentity_firstSeen.1 (Std.le_refl _)).1 e he

/-! ### One step -/

section Step

variable {db : Db} {clusters : List Cluster} {choice : IdentityChoice} {preserve newIds : List Bytes}
  {now : Bytes}

/-- **An identity that stays active** has the instants of the cluster that claims it, or it is as it
was. -/
theorem active_after (hdb : TablesOk db) (hkeys : KeyNodup clusterKey clusters)
    (hspec : ChoiceSpec db.entities clusters choice) {id : Bytes} {e e' : EntityIdentity}
    (he : lookup EntityIdentity.id db.entities id = some e)
    (he' : lookup EntityIdentity.id (entitiesAfter db clusters choice preserve now) id = some e')
    (hactive : e.Active) (hactive' : e'.Active) :
    (∃ d ∈ clusters, chosenID choice.chosen d = id ∧
      { e' with mergedAt := none } = clusterIdentity d id db.entities now) ∨ e' = e := by
  by_cases hcluster : ∃ d ∈ clusters, chosenID choice.chosen d = id
  · obtain ⟨d, hd, rfl⟩ := hcluster
    obtain ⟨f, hf, hrow⟩ := lookup_chosen_row preserve now hdb hkeys hspec hd
    rw [he'] at hf
    obtain rfl := Option.some.inj hf
    exact Or.inl ⟨d, hd, rfl, hrow⟩
  · refine Or.inr ?_
    cases hmerge : mergeTarget choice.mergedInto id with
    | some winner =>
        -- a loser is merged
        rw [lookup_loser hdb hkeys hspec hmerge] at he'
        obtain rfl := Option.some.inj he'
        cases hactive'.1
    | none =>
        rw [lookup_other hdb hkeys hspec hmerge fun d hd heq => hcluster ⟨d, hd, heq⟩, he,
          Option.map_some, Option.some_inj, settled] at he'
        split at he'
        · rw [← he'] at hactive'
          cases hactive'.2
        · rw [← he', redirected, hactive.1, Option.map_none, ← hactive.1]

end Step

/-- The first instant never increases. -/
theorem firstSeenKept_step {w w' : World} {a : Event} (hdb : TablesOk w.db)
    (hstep : lifecycle.step w a w') : FirstSeenKept w a w' := by
  have hok := tablesOk_step hdb hstep
  intro e he e' he' hid hactive hactive'
  have hrow := hdb.ids.lookup_of_mem he
  have hrow' := hok.ids.lookup_of_mem he'
  rw [hid] at hrow'
  cases a with
  | reconcile clusters preserve newIds now =>
      obtain ⟨h, rfl⟩ := hstep
      rw [reconcileEntityIdentities_eq hdb h] at hrow'
      rcases active_after hdb h.sorted.clusterKeys (choice_spec hdb h.sorted) hrow hrow' hactive
        hactive' with ⟨d, -, -, heq⟩ | rfl
      · change ({ e' with mergedAt := none } : EntityIdentity).firstSeen ≤ e.firstSeen
        rw [heq]
        exact clusterIdentity_firstSeen_le hrow
      · exact Std.le_refl _
  | purge cutoff =>
      obtain rfl := hstep
      rw [hdb.lookup_purge, hrow] at hrow'
      obtain ⟨f, hf, rfl⟩ := Option.map_eq_some_iff.1 hrow'
      obtain ⟨hf, -⟩ := Option.filter_eq_some_iff.1 hf
      obtain rfl := Option.some.inj hf
      exact Std.le_refl _

/-- **When the last instant does not decrease** in a step. -/
theorem lastSeenKept_step {w w' : World} {a : Event} (hdb : TablesOk w.db)
    (hstep : lifecycle.step w a w') : LastSeenKept w a w' ↔ ClaimsSeenAgain w a := by
  have hok := tablesOk_step hdb hstep
  cases a with
  | reconcile clusters preserve newIds now =>
      obtain ⟨h, rfl⟩ := hstep
      have hkeys := h.sorted.clusterKeys
      have hspec := choice_spec hdb h.sorted
      constructor
      · intro hkept c hc e he hid hactive
        obtain ⟨e', he', hrow⟩ := lookup_chosen_row preserve now hdb hkeys hspec hc
        have hmem : e' ∈ (reconcileEntityIdentities w.db clusters preserve newIds now).entities := by
          rw [reconcileEntityIdentities_eq hdb h]
          exact (lookup_eq_some he').1
        have hle : e.lastSeen ≤ ({ e' with mergedAt := none } : EntityIdentity).lastSeen :=
          hkept e he e' hmem ((lookup_eq_some he').2.trans hid.symm) hactive
            ⟨congrArg EntityIdentity.mergedInto hrow, congrArg EntityIdentity.goneAt hrow⟩
        rw [hrow] at hle
        exact le_clusterIdentity_lastSeen.1 hle
      · intro hseen e he e' he' hid hactive hactive'
        have hrow := hdb.ids.lookup_of_mem he
        have hrow' := hok.ids.lookup_of_mem he'
        rw [hid, reconcileEntityIdentities_eq hdb h] at hrow'
        rcases active_after hdb hkeys hspec hrow hrow' hactive hactive' with
          ⟨d, hd, hchosen, heq⟩ | rfl
        · change e.lastSeen ≤ ({ e' with mergedAt := none } : EntityIdentity).lastSeen
          rw [heq]
          exact le_clusterIdentity_lastSeen.2 (hseen d hd e he hchosen.symm hactive)
        · exact Std.le_refl _
  | purge cutoff =>
      obtain rfl := hstep
      refine iff_of_true ?_ trivial
      intro e he e' he' hid hactive hactive'
      have hrow' := hok.ids.lookup_of_mem he'
      rw [hid, hdb.lookup_purge, hdb.ids.lookup_of_mem he] at hrow'
      obtain ⟨f, hf, rfl⟩ := Option.map_eq_some_iff.1 hrow'
      obtain ⟨hf, -⟩ := Option.filter_eq_some_iff.1 hf
      obtain rfl := Option.some.inj hf
      exact Std.le_refl _

/-! ### Runs -/

/-- **When the instants never move the wrong way**: the first one never does, and the last one does
not in exactly the runs in which each cluster that claims an active identity has an observation that
is not older than the instant at which the identity was seen last. -/
theorem seen_times (as : List Event) :
    lifecycle.Along ⟨⟨[], []⟩, []⟩ as FirstSeenKept ∧
      (lifecycle.Along ⟨⟨[], []⟩, []⟩ as LastSeenKept ↔
        lifecycle.Along ⟨⟨[], []⟩, []⟩ as fun w a _ => ClaimsSeenAgain w a) := by
  constructor
  · intro pre a post w w' hsplit hrun hstep
    have hdb : TablesOk w.db :=
      hrun.invariant (I := fun w => TablesOk w.db) (fun _ _ _ => tablesOk_step) tablesOk_nil
    exact firstSeenKept_step hdb hstep
  · refine Machine.along_iff (I := fun w => TablesOk w.db) ?_ ?_ tablesOk_nil
    · exact fun w a w' hdb hstep => lastSeenKept_step hdb hstep
    · exact fun w a w' hdb hstep _ => tablesOk_step hdb hstep

/-! ### A run in which an instant goes back -/

/-- The observations that an event brings. -/
def Event.observations : Event → List EntityMemberRecord
  | .reconcile clusters _ _ _ => clusters.flatten
  | .purge _ => []

/-- A member is never observed earlier than before. -/
def ObservedForward (as : List Event) : Prop :=
  as.Pairwise fun a b => ∀ m ∈ a.observations, ∀ m' ∈ b.observations,
    m.key = m'.key → m.observedAt ≤ m'.observedAt

instance : DecidablePred ObservedForward := fun as =>
  inferInstanceAs (Decidable (as.Pairwise fun a b => ∀ m ∈ a.observations, ∀ m' ∈ b.observations,
    m.key = m'.key → m.observedAt ≤ m'.observedAt))

/-- An observation in January, on some day. -/
def observedOn (connectorID ref day : Bytes) : EntityMemberRecord :=
  ⟨connectorID, [7], ref, bytes "nas", bytes "2026-01-" ++ day ++ bytes "T00:00:00Z"⟩

/-- Two connectors see one machine, the first one on the tenth and the second one on the fifth. -/
def sampleSeen : List Event :=
  [.reconcile [[observedOn [1] [4] (bytes "10"), observedOn [2] [5] (bytes "05")]] [] [[10]]
    (bytes "2026-01-11T00:00:00Z")]

/-- Then the snapshot of the first connector cannot be read. -/
def sampleUnread : Event :=
  .reconcile [[observedOn [2] [5] (bytes "05")]] [[1]] [[11]] (bytes "2026-01-12T00:00:00Z")

theorem sampleSeen_run : lifecycle.Run ⟨⟨[], []⟩, []⟩ sampleSeen (sampleWorld sampleSeen) := by
  refine .cons ⟨?_, rfl⟩ .nil
  constructor <;> decide

/-- **The instant at which an identity was seen last goes back**, though no member is observed
earlier than before: from the tenth to the fifth of January. -/
theorem last_seen_goes_back :
    ObservedForward (sampleSeen ++ [sampleUnread]) ∧
      lifecycle.Run ⟨⟨[], []⟩, []⟩ (sampleSeen ++ [sampleUnread])
        (sampleWorld (sampleSeen ++ [sampleUnread])) ∧
      ¬ lifecycle.Along ⟨⟨[], []⟩, []⟩ (sampleSeen ++ [sampleUnread]) LastSeenKept := by
  have hstep : lifecycle.step (sampleWorld sampleSeen) sampleUnread
      (sampleWorld (sampleSeen ++ [sampleUnread])) := by
    refine ⟨?_, rfl⟩
    constructor <;> decide
  refine ⟨by decide, sampleSeen_run.snoc hstep, fun halong => ?_⟩
  have hkept := halong.last sampleSeen_run hstep
  have hback : ∃ e ∈ (sampleWorld sampleSeen).db.entities,
      ∃ e' ∈ (sampleWorld (sampleSeen ++ [sampleUnread])).db.entities, e'.id = e.id ∧
        (e.mergedInto = none ∧ e.goneAt = none) ∧ (e'.mergedInto = none ∧ e'.goneAt = none) ∧
        ¬ e.lastSeen ≤ e'.lastSeen := by
    decide
  obtain ⟨e, he, e', he', hid, hactive, hactive', hlt⟩ := hback
  exact hlt (hkept e he e' he' hid hactive hactive')

end WiseLabz.Identity
