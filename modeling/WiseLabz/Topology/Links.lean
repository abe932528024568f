/-
**Links do not depend on the side.**

Whether two entities match, why, and whether the cap on a shared address drops the link, is the same
from either side, for the entities that share an address are the same whichever connector is
rebuilt.  A pair that matches is linked unless its key is that of another pair.

Main definitions:

* `Topology.ReadableLab` — connectors with readable snapshots and distinct entities;
* `Topology.KeysTell` — the keys tell what they are keys of;
* `Topology.Linked` — two entities are linked.

Main results:

* `Topology.matchReason_comm`, `Topology.Linked.symm` — matches and links are symmetric;
* `Topology.mem_matchEntityPairs` — **which pairs a rebuild finds**.
-/

import WiseLabz.Topology.Store

set_option relaxedAutoImplicit false
set_option autoImplicit false

namespace WiseLabz.Topology

open Lib

/-! ### Matches -/

/-- The names of an entity that can match. -/
def SnapshotEntity.names (e : SnapshotEntity) : List Bytes :=
  (e.hostname :: e.aliases).filter (· ≠ [])

theorem matchesHostnameOrAlias_eq (x : Text) (name : Bytes) (e : SnapshotEntity) :
    matchesHostnameOrAlias x name e = e.names.any (x.equalFold name) := by
  rw [SnapshotEntity.names, List.any_filter, List.any_cons]
  rfl

/-- Entities match by their names when two of their names are equal but for case. -/
theorem hostnameMatches_eq (x : Text) (a b : SnapshotEntity) :
    hostnameMatches x a b = a.names.any fun n => b.names.any (x.equalFold n) := by
  have hnone : ∀ e : SnapshotEntity, (e.hostname ≠ [] || e.aliases.length > 0) = false →
      e.names = [] := by
    intro e he
    simp only [Bool.or_eq_false_iff, decide_eq_false_iff_not, not_not, gt_iff_lt, not_lt,
      Nat.le_zero, List.length_eq_zero_iff] at he
    simp [SnapshotEntity.names, he.1, he.2]
  rw [hostnameMatches]
  cases ha : (a.hostname ≠ [] || a.aliases.length > 0) with
  | false => simp [hnone a ha]
  | true =>
      cases hb : (b.hostname ≠ [] || b.aliases.length > 0) with
      | false => simp [hnone b hb]
      | true =>
          simp only [Bool.not_true, Bool.or_self, Bool.false_eq_true, if_false,
            matchesHostnameOrAlias_eq]
          rw [show a.names = (a.hostname :: a.aliases).filter (· ≠ []) from rfl, List.any_filter,
            List.any_cons]

theorem equalFold_comm (x : Text) (s t : Bytes) : x.equalFold s t = x.equalFold t s := by
  rw [Text.equalFold, Text.equalFold]
  exact decide_eq_decide.2 eq_comm

theorem hostnameMatches_comm (x : Text) (a b : SnapshotEntity) :
    hostnameMatches x a b = hostnameMatches x b a := by
  have hswap : ∀ a b : SnapshotEntity, hostnameMatches x a b = true →
      hostnameMatches x b a = true := by
    intro a b h
    rw [hostnameMatches_eq, List.any_eq_true] at h ⊢
    obtain ⟨n, hn, h⟩ := h
    obtain ⟨m, hm, h⟩ := List.any_eq_true.1 h
    exact ⟨m, hm, List.any_eq_true.2 ⟨n, hn, equalFold_comm x n m ▸ h⟩⟩
  exact Bool.eq_iff_iff.2 ⟨hswap a b, hswap b a⟩

theorem strongMatchReason_comm (x : Text) (a b : SnapshotEntity) :
    strongMatchReason x a b = strongMatchReason x b a := by
  rw [strongMatchReason, strongMatchReason, hostnameMatches_comm x a b]
  refine if_congr ⟨?_, ?_⟩ rfl rfl
  · rintro ⟨ha, hb, hkind, hid⟩
    exact ⟨hb, ha, hkind.symm, hid.symm⟩
  · rintro ⟨hb, ha, hkind, hid⟩
    exact ⟨ha, hb, hkind.symm, hid.symm⟩

/-- **Why two entities match does not depend on the side.** -/
theorem matchReason_comm (x : Text) (a b : SnapshotEntity) :
    matchReason x a b = matchReason x b a := by
  rw [matchReason, matchReason, strongMatchReason_comm x a b]
  refine if_congr Iff.rfl rfl (if_congr ⟨?_, ?_⟩ rfl rfl)
  · rintro ⟨ha, hb, hip⟩
    exact ⟨hb, ha, hip.symm⟩
  · rintro ⟨hb, ha, hip⟩
    exact ⟨ha, hb, hip.symm⟩

/-- Entities that match by their address have one. -/
theorem ip_eq_of_matchReason {x : Text} {a b : SnapshotEntity}
    (h : matchReason x a b = reasonIPAddress) : a.ip = b.ip := by
  have hstrong : strongMatchReason x a b ≠ reasonIPAddress := by
    rw [strongMatchReason]
    split
    · decide
    · split
      · decide
      · decide
  rw [matchReason] at h
  split at h
  · exact absurd h hstrong
  · split at h
    · next hip => exact hip.2.2
    · exact absurd h hstrong

/-! ### Entities that share an address -/

/-- The connectors have snapshots that can be read, with distinct entities. -/
structure ReadableLab (connectors : List ConnectorRecord) : Prop where
  ids : KeyNodup ConnectorRecord.id connectors
  readable : ∀ c ∈ connectors, c.latest ≠ .unreadable
  refs : ∀ c ∈ connectors, KeyNodup (fun e => (e.kind, entityRef e)) c.entities

section Groups

variable {connectors : List ConnectorRecord}

/-- The keys of all entities with an address. -/
def wholeGroup (connectors : List ConnectorRecord) (ip : Bytes) : List Bytes :=
  connectors.flatMap fun c =>
    (c.entities.filter (·.ip = ip)).map fun e => sameAsKey c.id e.kind (entityRef e)

/-- **The group of an address is the same from every side.** -/
theorem ipGroup_perm (hlab : ReadableLab connectors) {c : ConnectorRecord} (hc : c ∈ connectors)
    (ip : Bytes) : (ipGroup connectors c.id c.entities ip).Perm (wholeGroup connectors ip) := by
  have hself : connectors.filter (fun d => d.id = c.id) = [c] := hlab.ids.filter_key hc
  have hperm : (c :: connectors.filter (·.id ≠ c.id)).Perm connectors := by
    have hsplit := List.filter_append_perm (fun d : ConnectorRecord => d.id = c.id) connectors
    rw [hself] at hsplit
    simpa using hsplit
  have hflat := hperm.flatMap_right fun d =>
    (d.entities.filter (·.ip = ip)).map fun e => sameAsKey d.id e.kind (entityRef e)
  rwa [List.flatMap_cons] at hflat

theorem allowedKeys_perm {group group' : List Bytes} (h : group.Perm group') :
    allowedKeys group = allowedKeys group' := by
  -- sorted lists of the same keys are equal
  have htotal : Std.Total fun s t : Bytes => ¬ t < s := ⟨List.le_total⟩
  have htrans : IsTrans Bytes fun s t => ¬ t < s := ⟨fun _ _ _ => List.le_trans⟩
  have hsort : (group.insertionSort fun s t => ¬ t < s) = group'.insertionSort fun s t => ¬ t < s := by
    refine List.Perm.eq_of_pairwise (fun s t _ _ hst hts => List.le_antisymm hst hts)
      (List.pairwise_insertionSort _ _) (List.pairwise_insertionSort _ _) ?_
    exact (List.perm_insertionSort _ _).trans (h.trans (List.perm_insertionSort _ _).symm)
  rw [allowedKeys, allowedKeys, h.length_eq, hsort]

/-- The cap on a shared address drops the link. -/
def Capped (x : Text) (connectors : List ConnectorRecord) (c : Bytes) (a : SnapshotEntity)
    (d : Bytes) (b : SnapshotEntity) : Prop :=
  matchReason x a b = reasonIPAddress ∧ strongMatchReason x a b = [] ∧
    ∃ set, allowedKeys (wholeGroup connectors a.ip) = some set ∧
      (sameAsKey c a.kind (entityRef a) ∉ set ∨ sameAsKey d b.kind (entityRef b) ∉ set)

theorem Capped.symm {x : Text} {c d : Bytes} {a b : SnapshotEntity}
    (h : Capped x connectors c a d b) : Capped x connectors d b c a := by
  obtain ⟨hreason, hstrong, set, hset, hout⟩ := h
  rw [ip_eq_of_matchReason hreason] at hset
  exact ⟨(matchReason_comm x b a).trans hreason, (strongMatchReason_comm x b a).trans hstrong, set,
    hset, hout.symm⟩

/-- **Two entities are linked.** -/
structure Linked (x : Text) (connectors : List ConnectorRecord) (c : ConnectorRecord)
    (a : SnapshotEntity) (d : ConnectorRecord) (b : SnapshotEntity) : Prop where
  left : c ∈ connectors ∧ a ∈ c.entities
  right : d ∈ connectors ∧ b ∈ d.entities
  distinct : c.id ≠ d.id
  reason : matchReason x a b ≠ []
  uncapped : ¬ Capped x connectors c.id a d.id b

theorem Linked.symm {x : Text} {c d : ConnectorRecord} {a b : SnapshotEntity}
    (h : Linked x connectors c a d b) : Linked x connectors d b c a where
  left := h.right
  right := h.left
  distinct := h.distinct.symm
  reason := matchReason_comm x b a ▸ h.reason
  uncapped hcapped := h.uncapped hcapped.symm

end Groups

/-! ### The pairs that a rebuild finds -/

/-- **The keys tell what they are keys of**: no text that is joined into a key has a NUL byte, and no
two different pairs that match have the same key. -/
structure KeysTell (x : Text) (connectors : List ConnectorRecord) : Prop where
  id : ∀ c ∈ connectors, 0 ∉ c.id ∧ 0 ∉ c.name
  entity : ∀ c ∈ connectors, ∀ e ∈ c.entities, 0 ∉ e.kind ∧ 0 ∉ e.name ∧ 0 ∉ e.externalID
  pair : ∀ c ∈ connectors, ∀ l ∈ matchingPairs x connectors c.id c.entities,
    ∀ l' ∈ matchingPairs x connectors c.id c.entities, pairKey c.id l = pairKey c.id l' → l = l'

section Pairs

variable {x : Text} {connectors : List ConnectorRecord}

/-- The link of two entities, from the side of the first. -/
def linkOf (x : Text) (a : SnapshotEntity) (d : ConnectorRecord) (b : SnapshotEntity) : EntityLink :=
  ⟨b, a, d.id, d.name, matchReason x a b⟩

theorem mem_matchingPairs {c : ConnectorRecord} {l : EntityLink} :
    l ∈ matchingPairs x connectors c.id c.entities ↔
      ∃ d ∈ connectors, d.id ≠ c.id ∧ ∃ b ∈ d.entities, ∃ a ∈ c.entities,
        matchReason x a b ≠ [] ∧ l = linkOf x a d b := by
  simp only [matchingPairs, List.mem_flatMap, List.mem_filter, List.mem_filterMap,
    decide_eq_true_eq, and_assoc]
  refine exists_congr fun d => and_congr_right fun _ => and_congr_right fun _ =>
    exists_congr fun b => and_congr_right fun _ => exists_congr fun a => and_congr_right fun _ => ?_
  split
  · next h => simp [h]
  · next h => simp [h, linkOf, eq_comm]

/-- **Which pairs a rebuild finds**: all that are linked. -/
theorem mem_matchEntityPairs (hlab : ReadableLab connectors) (hkeys : KeysTell x connectors)
    {c : ConnectorRecord} (hc : c ∈ connectors) {l : EntityLink} :
    l ∈ matchEntityPairs x connectors c.id c.entities ↔
      ∃ a d b, Linked x connectors c a d b ∧ l = linkOf x a d b := by
  have hgroup : ∀ ip, allowedKeys (ipGroup connectors c.id c.entities ip) =
      allowedKeys (wholeGroup connectors ip) := fun ip => allowedKeys_perm (ipGroup_perm hlab hc ip)
  -- no pair is dropped for its key
  have hpairs : ∀ l, l ∈ distinctOn (pairKey c.id) (matchingPairs x connectors c.id c.entities) ↔
      l ∈ matchingPairs x connectors c.id c.entities := by
    intro l
    refine ⟨mem_of_mem_distinctOn, fun hl => mem_distinctOn hl fun l' hl' hkey => ?_⟩
    exact hkeys.pair c hc l' hl' l hl hkey
  have hcap : ∀ (a : SnapshotEntity) (d : ConnectorRecord) (b : SnapshotEntity),
      (!(matchReason x a b = reasonIPAddress && strongMatchReason x a b = [] &&
        (allowedKeys (ipGroup connectors c.id c.entities a.ip)).any fun set =>
          sameAsKey c.id a.kind (entityRef a) ∉ set ||
            sameAsKey d.id b.kind (entityRef b) ∉ set)) = true ↔
        ¬ Capped x connectors c.id a d.id b := by
    intro a d b
    rw [hgroup, Bool.not_eq_true', ← Bool.not_eq_true, not_iff_not]
    simp only [Capped, Option.any_eq_true, Bool.and_eq_true, Bool.or_eq_true,
      decide_eq_true_eq, and_assoc]
  rw [matchEntityPairs]
  split
  · next hnone =>
      refine ⟨fun hl => absurd hl List.not_mem_nil, ?_⟩
      rintro ⟨a, d, b, h, -⟩
      exact absurd h.left.2 (hnone ▸ List.not_mem_nil)
  · rw [capIPOnlyLinks, List.mem_filter, hpairs, mem_matchingPairs]
    constructor
    · rintro ⟨⟨d, hd, hne, b, hb, a, ha, hreason, rfl⟩, huncapped⟩
      exact ⟨a, d, b, ⟨⟨hc, ha⟩, ⟨hd, hb⟩, hne.symm, hreason, (hcap a d b).1 huncapped⟩, rfl⟩
    · rintro ⟨a, d, b, h, rfl⟩
      exact ⟨⟨d, h.right.1, h.distinct.symm, b, h.right.2, a, h.left.2, h.reason, rfl⟩,
        (hcap a d b).2 h.uncapped⟩

end Pairs

end WiseLabz.Topology
