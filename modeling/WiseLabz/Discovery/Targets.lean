/-
**The targets of a network scan.**

A scan probes the hosts of some private ranges, hosts that the instance already knows, and hosts
that answer a network query while it runs.  Every address is checked before it is admitted, and a
scan has a budget of addresses that its target set never exceeds.

Main definitions:

* `Discovery.allowed` — which single addresses may be probed;
* `Discovery.Range` — a validated range, and `Discovery.hosts` its usable addresses;
* `Discovery.TargetSet` — **the admitted addresses**, all allowed, distinct and within the budget;
* `Discovery.planTargets` — the targets a scan starts with, and how they are counted.

Main results:

* `Discovery.Range.allowed_of_mem_hosts` — the hosts of a range are allowed;
* `Discovery.planTargets_counts` — **each admitted address is counted once**, under its source.
-/

import WiseLabz.Lib.Bytes
import Mathlib.Data.List.Nodup

set_option relaxedAutoImplicit false
set_option autoImplicit false

namespace WiseLabz.Discovery

open Lib

/-! ### Addresses -/

/-- An address; one of version 6 may have a zone. -/
inductive Addr
  | invalid
  | v4 (a : BitVec 32)
  | v6 (a : BitVec 128) (zone : Bytes)
  deriving DecidableEq, Repr

/-- An IPv4-mapped address as its IPv4 address. -/
def Addr.unmap : Addr → Addr
  | .v6 a zone => if a.toNat / 2 ^ 32 = 0xFFFF then .v4 (a.setWidth 32) else .v6 a zone
  | addr => addr

def Addr.zone : Addr → Bytes
  | .v6 _ zone => zone
  | _ => []

/-- The order of addresses: version 4 first, then by number, then by zone. -/
def Addr.le : Addr → Addr → Bool
  | .invalid, _ => true
  | .v4 _, .invalid => false
  | .v4 a, .v4 b => a.toNat ≤ b.toNat
  | .v4 _, .v6 _ _ => true
  | .v6 a zone, .v6 b zone' => a.toNat < b.toNat || (a = b && decide (zone ≤ zone'))
  | .v6 _ _, _ => false

/-- `IsDangerousIP`: loopback, link-local, unspecified or multicast. -/
def isDangerousIP : Addr → Bool
  | .v4 a =>
      a.toNat / 2 ^ 24 = 127 || a.toNat / 2 ^ 16 = 169 * 256 + 254 || a.toNat = 0 ||
        a.toNat / 2 ^ 28 = 0xE
  | .v6 a _ =>
      a.toNat = 1 || a.toNat / 2 ^ 118 = 0xFE80 / 2 ^ 6 || a.toNat = 0 || a.toNat / 2 ^ 120 = 0xFF
  | .invalid => false

/-- A block of IPv4 addresses. -/
structure Block where
  base : BitVec 32
  bits : ℕ
  deriving DecidableEq, Repr

def Block.contains (b : Block) (a : BitVec 32) : Bool :=
  a.toNat / 2 ^ (32 - b.bits) = b.base.toNat / 2 ^ (32 - b.bits)

def privateRanges : List Block :=
  [⟨0x0A000000, 8⟩, ⟨0xAC100000, 12⟩, ⟨0xC0A80000, 16⟩]

def meshRange : Block := ⟨0x64400000, 10⟩

/-- `Allowed`: whether a single address may be a target. -/
def allowed (addr : Addr) : Bool :=
  addr ≠ .invalid && addr.zone = [] && !isDangerousIP addr.unmap &&
    match addr.unmap with
    | .v4 a => privateRanges.any (·.contains a) || meshRange.contains a
    | .v6 a _ => a.toNat / 2 ^ 120 = 0xFD
    | .invalid => false

/-! ### Ranges -/

def minPrefixBits : ℕ := 22

/-- `inIPv4Range`. -/
def inIPv4Range (base : BitVec 32) (bits : ℕ) : Bool :=
  privateRanges.any (fun b => b.bits ≤ bits && b.contains base) ||
    (meshRange.bits ≤ bits && meshRange.contains base)

/-- A validated range, with its host bits cleared. -/
structure Range where
  base : BitVec 32
  bits : ℕ
  masked : 2 ^ (32 - bits) ∣ base.toNat
  inRange : inIPv4Range base bits = true
  narrow : minPrefixBits ≤ bits
  le_32 : bits ≤ 32

def Range.contains (r : Range) : Addr → Bool
  | .v4 a => Block.contains ⟨r.base, r.bits⟩ a
  | _ => false

/-- `Range.Hosts`: without the network and the broadcast address, but for the two narrowest. -/
def Range.hosts (r : Range) : List Addr :=
  let all := (List.range (2 ^ (32 - r.bits))).map fun i => .v4 (BitVec.ofNat 32 (r.base.toNat + i))
  if r.bits ≤ 30 then all.tail.dropLast else all

/-- The addresses that are new, each once. -/
def distinctHosts : List Addr → List Addr → List Addr
  | [], _ => []
  | a :: rest, seen =>
      if a ∈ seen then distinctHosts rest seen else a :: distinctHosts rest (a :: seen)

/-- `Ranges.Hosts`: each usable address once. -/
def hosts (ranges : List Range) : List Addr := distinctHosts (ranges.flatMap Range.hosts) []

/-- A block contains what a range in it does. -/
theorem Block.contains_of_range {b : Block} {base : BitVec 32} {bits i : ℕ}
    (hmask : 2 ^ (32 - bits) ∣ base.toNat) (hbits : bits ≤ 32) (hb : b.bits ≤ bits)
    (hbase : b.contains base = true) (hi : i < 2 ^ (32 - bits)) :
    b.contains (BitVec.ofNat 32 (base.toNat + i)) = true := by
  obtain ⟨k, hk⟩ := hmask
  have hpos : 0 < 2 ^ (32 - bits) := Nat.two_pow_pos _
  have hsplit : 2 ^ (32 - bits) * 2 ^ bits = 2 ^ 32 := by
    rw [← pow_add, Nat.sub_add_cancel hbits]
  have hlt : base.toNat + i < 2 ^ 32 := by
    have hbase := base.isLt
    rw [hk, ← hsplit] at hbase
    have hk' : k + 1 ≤ 2 ^ bits := Nat.lt_of_mul_lt_mul_left hbase
    calc base.toNat + i < 2 ^ (32 - bits) * k + 2 ^ (32 - bits) := by
          rw [hk]
          exact Nat.add_lt_add_left hi _
      _ = 2 ^ (32 - bits) * (k + 1) := (Nat.mul_succ _ _).symm
      _ ≤ 2 ^ (32 - bits) * 2 ^ bits := Nat.mul_le_mul_left _ hk'
      _ = 2 ^ 32 := hsplit
  have hwidth : 2 ^ (32 - b.bits) = 2 ^ (32 - bits) * 2 ^ (bits - b.bits) := by
    rw [← pow_add]
    congr 1
    omega
  have hdiv : (base.toNat + i) / 2 ^ (32 - b.bits) = base.toNat / 2 ^ (32 - b.bits) := by
    rw [hwidth, ← Nat.div_div_eq_div_mul, ← Nat.div_div_eq_div_mul, hk,
      Nat.mul_add_div hpos, Nat.div_eq_of_lt hi, Nat.add_zero, Nat.mul_div_cancel_left _ hpos]
  have hbase' := of_decide_eq_true hbase
  refine decide_eq_true ?_
  rw [BitVec.toNat_ofNat, Nat.mod_eq_of_lt hlt, hdiv]
  exact hbase'

/-- The addresses of the private blocks are allowed. -/
theorem allowed_of_contains {a : BitVec 32} {b : Block} (hb : b ∈ meshRange :: privateRanges)
    (h : b.contains a = true) : allowed (.v4 a) = true := by
  have hlt := a.isLt
  have hblock : (privateRanges.any (·.contains a) || meshRange.contains a) = true := by
    rcases List.mem_cons.1 hb with rfl | hb
    · rw [h, Bool.or_true]
    · rw [List.any_eq_true.2 ⟨b, hb, h⟩, Bool.true_or]
  have hsafe : isDangerousIP (.v4 a) = false := by
    have hdiv := of_decide_eq_true h
    simp only [meshRange, privateRanges, List.mem_cons, List.not_mem_nil, or_false] at hb
    simp only [isDangerousIP, Bool.or_eq_false_iff, decide_eq_false_iff_not]
    rcases hb with rfl | rfl | rfl | rfl <;> simp at hdiv <;> omega
  show (decide (Addr.v4 a ≠ .invalid) && decide (Addr.zone (.v4 a) = []) &&
    !isDangerousIP (.v4 a) && (privateRanges.any (·.contains a) || meshRange.contains a)) = true
  rw [hblock, hsafe]
  rfl

/-- **The hosts of a range are allowed.** -/
theorem Range.allowed_of_mem_hosts {r : Range} {a : Addr} (h : a ∈ r.hosts) : allowed a = true := by
  have hall : a ∈ (List.range (2 ^ (32 - r.bits))).map fun i =>
      Addr.v4 (BitVec.ofNat 32 (r.base.toNat + i)) := by
    rw [Range.hosts] at h
    split at h
    · exact List.mem_of_mem_tail (List.dropLast_subset _ h)
    · exact h
  obtain ⟨i, hi, rfl⟩ := List.mem_map.1 hall
  rw [List.mem_range] at hi
  have hin := r.inRange
  rw [inIPv4Range, Bool.or_eq_true] at hin
  rcases hin with hin | hin
  · obtain ⟨b, hb, hcontains⟩ := List.any_eq_true.1 hin
    rw [Bool.and_eq_true, decide_eq_true_eq] at hcontains
    exact allowed_of_contains (List.mem_cons_of_mem _ hb)
      (Block.contains_of_range r.masked r.le_32 hcontains.1 hcontains.2 hi)
  · rw [Bool.and_eq_true, decide_eq_true_eq] at hin
    exact allowed_of_contains List.mem_cons_self
      (Block.contains_of_range r.masked r.le_32 hin.1 hin.2 hi)

theorem mem_of_mem_distinctHosts {as seen : List Addr} {a : Addr}
    (h : a ∈ distinctHosts as seen) : a ∈ as ∧ a ∉ seen := by
  induction as generalizing seen with
  | nil => exact absurd h List.not_mem_nil
  | cons b as ih =>
      rw [distinctHosts] at h
      split at h
      · exact ⟨List.mem_cons_of_mem _ (ih h).1, (ih h).2⟩
      · next hb =>
          rcases List.mem_cons.1 h with rfl | h
          · exact ⟨List.mem_cons_self, hb⟩
          · exact ⟨List.mem_cons_of_mem _ (ih h).1, fun hmem => (ih h).2 (List.mem_cons_of_mem _ hmem)⟩

theorem distinctHosts_nodup (as seen : List Addr) : (distinctHosts as seen).Nodup := by
  induction as generalizing seen with
  | nil => exact List.nodup_nil
  | cons a as ih =>
      rw [distinctHosts]
      split
      · exact ih seen
      · exact List.nodup_cons.2
          ⟨fun h => (mem_of_mem_distinctHosts h).2 List.mem_cons_self, ih _⟩

theorem hosts_nodup (ranges : List Range) : (hosts ranges).Nodup := distinctHosts_nodup _ _

theorem allowed_of_mem_hosts {ranges : List Range} {a : Addr} (h : a ∈ hosts ranges) :
    allowed a = true := by
  obtain ⟨r, -, ha⟩ := List.mem_flatMap.1 (mem_of_mem_distinctHosts h).1
  exact Range.allowed_of_mem_hosts ha

/-! ### The target set -/

def maxAddresses : ℕ := 1024

/-- How an address first entered the target set. -/
inductive Source
  | range | inventory | passive
  deriving DecidableEq, Repr

/-- **The admitted addresses**, in the order of their admission. -/
structure TargetSet where
  entries : List (Addr × Source)
  nodup : (entries.map Prod.fst).Nodup
  size : entries.length ≤ maxAddresses
  safe : ∀ a ∈ entries.map Prod.fst, allowed a = true

namespace TargetSet

def addresses (t : TargetSet) : List Addr := t.entries.map Prod.fst

def empty : TargetSet := ⟨[], List.nodup_nil, Nat.zero_le _, nofun⟩

/-- One more address. -/
def insert (t : TargetSet) (a : Addr) (source : Source) (ha : allowed a = true)
    (hnew : a ∉ t.addresses) (hroom : t.entries.length < maxAddresses) : TargetSet where
  entries := t.entries ++ [(a, source)]
  nodup := by
    rw [List.map_append, List.nodup_append]
    refine ⟨t.nodup, List.nodup_singleton _, fun b hb c hc heq => ?_⟩
    have hc : c = a := List.mem_singleton.1 hc
    rw [heq, hc] at hb
    exact hnew hb
  size := by
    rw [List.length_append]
    exact hroom
  safe b hb := by
    rw [List.map_append, List.mem_append] at hb
    rcases hb with hb | hb
    · exact t.safe b hb
    · rw [List.map_singleton, List.mem_singleton] at hb
      exact hb ▸ ha

@[simp] theorem insert_entries (t : TargetSet) (a : Addr) (source : Source) (ha : allowed a = true)
    (hnew : a ∉ t.addresses) (hroom : t.entries.length < maxAddresses) :
    (t.insert a source ha hnew hroom).entries = t.entries ++ [(a, source)] := rfl

/-- The usable hosts, until the budget is used up. -/
def addHosts : (hosts : List Addr) → (∀ a ∈ hosts, allowed a = true) → TargetSet → TargetSet
  | [], _, t => t
  | a :: rest, h, t =>
      if hroom : t.entries.length < maxAddresses then
        addHosts rest (fun b hb => h b (List.mem_cons_of_mem _ hb))
          (if hnew : a ∉ t.addresses then t.insert a .range (h a List.mem_cons_self) hnew hroom else t)
      else t

/-- `NewTargetSet`. -/
def new (ranges : List Range) : TargetSet :=
  addHosts (hosts ranges) (fun _ h => allowed_of_mem_hosts h) empty

/-- `Contains`. -/
def contains (t : TargetSet) (addr : Addr) : Bool :=
  addr ≠ .invalid && addr.zone = [] && addr.unmap ∈ t.addresses

/-- `Admit`: the target set with the address, if it is allowed, new and within the budget. -/
def admitAddr (t : TargetSet) (addr : Addr) (source : Source) : Option TargetSet :=
  if addr = .invalid then none
  else if ha : allowed addr.unmap = true then
    if hnew : addr.unmap ∉ t.addresses then
      if hroom : t.entries.length < maxAddresses then
        some (t.insert addr.unmap source ha hnew hroom)
      else none
    else none
  else none

/-- `Source`; `none` for an address that is not admitted. -/
def source (t : TargetSet) (addr : Addr) : Option Source :=
  if addr = .invalid ∨ addr.zone ≠ [] then none else t.entries.lookup addr.unmap

/-- **An admitted address is added.** -/
theorem admitAddr_entries {t t' : TargetSet} {addr : Addr} {source : Source}
    (h : t.admitAddr addr source = some t') : t'.entries = t.entries ++ [(addr.unmap, source)] := by
  unfold admitAddr at h
  split at h
  · cases h
  · split at h
    · split at h
      · split at h
        · rw [← Option.some.inj h]
          rfl
        · cases h
      · cases h
    · cases h

/-- With room for them all, new hosts are all added. -/
theorem addHosts_length {hs : List Addr} (h : ∀ a ∈ hs, allowed a = true) (t : TargetSet)
    (hnodup : hs.Nodup) (hnew : ∀ a ∈ hs, a ∉ t.addresses)
    (hroom : t.entries.length + hs.length ≤ maxAddresses) :
    (addHosts hs h t).entries.length = t.entries.length + hs.length := by
  induction hs generalizing t with
  | nil => rfl
  | cons a hs ih =>
      obtain ⟨ha, hrest⟩ := List.nodup_cons.1 hnodup
      rw [List.length_cons] at hroom ⊢
      have hlt : t.entries.length < maxAddresses := by omega
      rw [addHosts, dif_pos hlt, dif_pos (hnew a List.mem_cons_self), ih]
      · rw [insert_entries, List.length_append, List.length_singleton]
        omega
      · exact hrest
      · intro b hb hmem
        rw [addresses, insert_entries, List.map_append, List.mem_append] at hmem
        rcases hmem with hmem | hmem
        · exact hnew b (List.mem_cons_of_mem _ hb) hmem
        · have hmem : b = a := List.mem_singleton.1 hmem
          rw [hmem] at hb
          exact ha hb
      · rw [insert_entries, List.length_append, List.length_singleton]
        omega

/-- **A new target set has all the hosts of its ranges.** -/
theorem new_length {ranges : List Range} (h : (hosts ranges).length ≤ maxAddresses) :
    (new ranges).entries.length = (hosts ranges).length := by
  have hlength := addHosts_length (fun _ h => allowed_of_mem_hosts h) empty (hosts_nodup ranges)
    (fun _ _ => List.not_mem_nil) (by simpa [empty] using h)
  rw [new, hlength, empty, List.length_nil, Nat.zero_add]

end TargetSet

/-! ### The targets of a new scan -/

/-- Admitted addresses by their first source. -/
structure SourceCounts where
  range : ℕ
  inventory : ℕ
  passive : ℕ
  deriving DecidableEq, Repr

def SourceCounts.total (c : SourceCounts) : ℕ := c.range + c.inventory + c.passive

/-- Allowed hosts that did not fit in the budget. -/
structure SkippedCounts where
  inventory : ℕ
  passive : ℕ
  deriving DecidableEq, Repr

/-- What a scan starts with. -/
structure Plan where
  targets : TargetSet
  static : List Addr
  sources : SourceCounts
  skipped : SkippedCounts

/-- `insideRanges`. -/
def insideRanges (addr : Addr) (ranges : List Range) : Bool := ranges.any (·.contains addr)

/-- The known hosts, in the order in which they are given. -/
def planInventory (ranges : List Range) : List Addr → List Addr → Plan → Plan
  | [], _, plan => plan
  | addr :: rest, seen, plan =>
      let a := addr.unmap
      if !allowed a || a ∈ seen || insideRanges a ranges then planInventory ranges rest seen plan
      else
        planInventory ranges rest (a :: seen)
          (match plan.targets.admitAddr a .inventory with
          | some targets =>
              { plan with
                targets := targets
                static := plan.static ++ [a]
                sources := { plan.sources with inventory := plan.sources.inventory + 1 } }
          | none =>
              { plan with skipped := { plan.skipped with inventory := plan.skipped.inventory + 1 } })

/-- The targets of a scan of some ranges and, if they are included, of the known hosts. -/
def planTargets (ranges : List Range) (includeInventory : Bool) (inventory : List Addr) : Plan :=
  let plan : Plan := ⟨.new ranges, hosts ranges, ⟨(hosts ranges).length, 0, 0⟩, ⟨0, 0⟩⟩
  if includeInventory then
    planInventory ranges (inventory.mergeSort fun a b => a.unmap.le b.unmap) [] plan
  else plan

/-- The counts of a plan agree with its target set. -/
structure Plan.Counted (plan : Plan) : Prop where
  sources : plan.sources.total = plan.targets.entries.length
  static : plan.static.length = plan.targets.entries.length

theorem planInventory_counts {ranges : List Range} {inventory seen : List Addr} {plan : Plan}
    (h : plan.Counted) : (planInventory ranges inventory seen plan).Counted := by
  induction inventory generalizing seen plan with
  | nil => exact h
  | cons addr rest ih =>
      rw [planInventory]
      dsimp only
      split
      · exact ih h
      · refine ih ?_
        split
        · next targets hadded =>
            have hentries := TargetSet.admitAddr_entries hadded
            have hlength : targets.entries.length = plan.targets.entries.length + 1 := by
              rw [hentries, List.length_append, List.length_singleton]
            refine ⟨?_, ?_⟩
            · have hsources := h.sources
              simp only [SourceCounts.total] at hsources ⊢
              omega
            · rw [List.length_append, List.length_singleton, h.static, hlength]
        · exact ⟨h.sources, h.static⟩

/-- **Each admitted address is counted once**, under its source. -/
theorem planTargets_counts {ranges : List Range} (includeInventory : Bool) (inventory : List Addr)
    (h : (hosts ranges).length ≤ maxAddresses) :
    (planTargets ranges includeInventory inventory).Counted := by
  have hnew := TargetSet.new_length h
  have hplan : Plan.Counted
      ⟨.new ranges, hosts ranges, ⟨(hosts ranges).length, 0, 0⟩, ⟨0, 0⟩⟩ :=
    ⟨hnew.symm, hnew.symm⟩
  rw [planTargets]
  split
  · exact planInventory_counts hplan
  · exact hplan

end WiseLabz.Discovery
