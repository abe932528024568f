/-
**Retention of snapshots.**

A sync stores a snapshot of its connector, and a user may pin one of them as the known-good
baseline.  A cleanup deletes old snapshots by statements of a bounded size, and anything may be
written between two of them: new snapshots come, others are pinned, connectors are deleted.  The
cleanup keeps the newest snapshot of each connector and the pinned ones, so nobody who asks for
these can tell that it ever ran.

Main definitions:

* `Retention.Tables`, `Retention.Tables.write` — the tables, and what is written into them;
* `Retention.getLatestSnapshot`, `Retention.getSnapshotByID` — what is read;
* `Retention.oldSnapshot` — **what the cleanup deletes**;
* `Retention.machine` — writes and statements of cleanups, in any order;
* `Retention.Cleanup` — a cleanup with nothing between its statements.

Main results:

* `Retention.stable_oldSnapshot` — what is to be deleted does not depend on what is;
* `Retention.cleanup_unseen` — **the same writes without the cleanups** lead to the same answers;
* `Retention.deleteOldSnapshots_spec` — a cleanup deletes the old snapshots, all and no others.
-/

import WiseLabz.Lib.Batches
import WiseLabz.Lib.Calendar
import WiseLabz.Lib.Keyset
import WiseLabz.Lib.Machine
import WiseLabz.Lib.Table

set_option relaxedAutoImplicit false
set_option autoImplicit false

namespace WiseLabz.Retention

open Lib

/-! ### Tables -/

/-- A row of `service_snapshots`. -/
structure SnapshotRecord where
  id : Bytes
  connectorID : Bytes
  data : Bytes
  fetchedAt : Bytes
  deriving DecidableEq, Repr

/-- A row of `golden_snapshots`. -/
structure GoldenSnapshotRecord where
  connectorID : Bytes
  snapshotID : Bytes
  pinnedBy : Bytes
  pinnedAt : Bytes
  deriving DecidableEq, Repr

/-- The tables, and the ids that `uuid.NewV7` has made by now. -/
structure Tables where
  connectors : List Bytes
  snapshots : List SnapshotRecord
  golden : List GoldenSnapshotRecord
  made : List Bytes

/-- `ON DELETE CASCADE` of `golden_snapshots.snapshot_id`. -/
def Tables.cascade (t : Tables) : Tables :=
  { t with golden := t.golden.filter fun g => t.snapshots.any fun sn => sn.id == g.snapshotID }

/-! ### Reading -/

def SnapshotRecord.key (sn : SnapshotRecord) : Bytes × Bytes := (sn.fetchedAt, sn.id)

/-- `(fetched_at, id) < (?, ?)`, texts by their bytes. -/
def Older (a b : Bytes × Bytes) : Prop := a.1 < b.1 ∨ a.1 = b.1 ∧ a.2 < b.2

instance : DecidableRel Older := fun _ _ => inferInstanceAs (Decidable (_ ∨ _))

/-- `ORDER BY fetched_at DESC, id DESC LIMIT 1`. -/
def latest (snapshots : List SnapshotRecord) (connectorID : Bytes) : Option SnapshotRecord :=
  (Keyset.found Older SnapshotRecord.key
    (snapshots.filter fun sn => sn.connectorID == connectorID) none).head?

/-- **`GetLatestSnapshot`.** -/
def getLatestSnapshot (t : Tables) (connectorID : Bytes) : Option SnapshotRecord :=
  latest t.snapshots connectorID

/-- **`GetSnapshotByID`.** -/
def getSnapshotByID (t : Tables) (id : Bytes) : Option SnapshotRecord :=
  lookup SnapshotRecord.id t.snapshots id

/-- **`GetGoldenSnapshot`.** -/
def getGoldenSnapshot (t : Tables) (connectorID : Bytes) : Option GoldenSnapshotRecord :=
  lookup GoldenSnapshotRecord.connectorID t.golden connectorID

/-! ### Writing -/

/-- **`normalizeSnapshotTime`.** -/
def normalizeSnapshotTime (value : Bytes) : Option Bytes := (parseTime value).map timestamp

/-- **`CreateSnapshot`**, with the id that it makes; the connector has to be there. -/
def createSnapshot (t : Tables) (sn : SnapshotRecord) : Option Tables := do
  let normalized ← normalizeSnapshotTime sn.fetchedAt
  if sn.connectorID ∈ t.connectors ∧ sn.id ∉ t.made then
    some { t with
      snapshots := t.snapshots ++ [{ sn with fetchedAt := normalized }], made := sn.id :: t.made }
  else none

/-- **`PinGoldenSnapshot`**, with the check of its handler that the snapshot is one of the
connector. -/
def pinGoldenSnapshot (t : Tables) (g : GoldenSnapshotRecord) : Option Tables :=
  match getSnapshotByID t g.snapshotID with
  | some sn =>
      if sn.connectorID = g.connectorID then
        some { t with golden := put GoldenSnapshotRecord.connectorID t.golden g }
      else none
  | none => none

/-- **`UnpinGoldenSnapshot`.** -/
def unpinGoldenSnapshot (t : Tables) (connectorID : Bytes) : Tables :=
  { t with golden := t.golden.filter fun g => g.connectorID != connectorID }

/-- **`DeleteConnector`**, and what goes with its row. -/
def deleteConnector (t : Tables) (connectorID : Bytes) : Tables :=
  Tables.cascade
    { t with
      connectors := t.connectors.filter (· != connectorID)
      snapshots := t.snapshots.filter fun sn => sn.connectorID != connectorID
      golden := t.golden.filter fun g => g.connectorID != connectorID }

inductive Write
  | createConnector (id : Bytes)
  | createSnapshot (sn : SnapshotRecord)
  | pin (g : GoldenSnapshotRecord)
  | unpin (connectorID : Bytes)
  | deleteConnector (id : Bytes)

/-- What is written; a refused write leaves the tables as they are, and is no event. -/
def Tables.write (t : Tables) : Write → Option Tables
  | .createConnector id =>
      if id ∈ t.connectors then none else some { t with connectors := id :: t.connectors }
  | .createSnapshot sn => createSnapshot t sn
  | .pin g => pinGoldenSnapshot t g
  | .unpin id => some (unpinGoldenSnapshot t id)
  | .deleteConnector id => if id ∈ t.connectors then some (deleteConnector t id) else none

/-! ### The cleanup -/

def retentionBatchSize : ℕ := 500

/-- **What `DeleteOldSnapshots` deletes**: neither a pinned snapshot nor the newest of its
connector. -/
def oldSnapshot (golden : List GoldenSnapshotRecord) (cutoff : Bytes)
    (snapshots : List SnapshotRecord) (sn : SnapshotRecord) : Bool :=
  decide (sn.fetchedAt < cutoff) && !(golden.any fun g => g.snapshotID == sn.id) &&
    snapshots.any fun n => n.connectorID == sn.connectorID && decide (Older sn.key n.key)

/-- One statement of `batchDelete`; `gone` are the snapshots it deletes. -/
def DeleteBatch (cutoff : Bytes) (t t' : Tables) (gone : List SnapshotRecord) : Prop :=
  ∃ rest, Batches.Batch (oldSnapshot t.golden cutoff) retentionBatchSize t.snapshots rest gone ∧
    t' = Tables.cascade { t with snapshots := rest }

/-- **`DeleteOldSnapshots`** with nothing between its statements. -/
inductive Cleanup (cutoff : Bytes) (t' : Tables) : (t : Tables) → (total statements : ℕ) → Prop
  | last {t : Tables} {gone : List SnapshotRecord} : DeleteBatch cutoff t t' gone →
      gone.length < retentionBatchSize → Cleanup cutoff t' t gone.length 1
  | more {t mid : Tables} {gone : List SnapshotRecord} {total statements : ℕ} :
      DeleteBatch cutoff t mid gone → ¬ gone.length < retentionBatchSize →
        Cleanup cutoff t' mid total statements →
          Cleanup cutoff t' t (gone.length + total) (statements + 1)

/-! ### The machine -/

inductive Event
  | write (w : Write)
  | deleteBatch (cutoff : Bytes)

/-- A write, unless the event is a statement of a cleanup. -/
def Event.write? : Event → Option Write
  | .write w => some w
  | .deleteBatch _ => none

/-- Constraints that the tables keep. -/
structure Valid (t : Tables) : Prop where
  ids : KeyNodup SnapshotRecord.id t.snapshots
  made : ∀ sn ∈ t.snapshots, sn.id ∈ t.made
  golden : ∀ g ∈ t.golden, ∃ sn ∈ t.snapshots, sn.id = g.snapshotID ∧ sn.connectorID = g.connectorID

inductive Step (t : Tables) : Event → Tables → Prop
  | write {w : Write} {t' : Tables} : t.write w = some t' → Step t (.write w) t'
  | deleteBatch {raw cutoff : Bytes} {t' : Tables} {gone : List SnapshotRecord} :
      normalizeSnapshotTime raw = some cutoff → DeleteBatch cutoff t t' gone →
        Step t (.deleteBatch cutoff) t'

/-- **Writes, and statements of cleanups with any cutoffs**, in any order; each is one step, as on
the single connection to SQLite. -/
def machine : Machine Tables Event where
  init := Valid
  step := Step

/-! ### The newest snapshot -/

theorem older_irrefl (a : Bytes × Bytes) : ¬ Older a a := by
  rintro (h | ⟨-, h⟩) <;> exact List.lt_irrefl _ h

theorem older_trans {a b c : Bytes × Bytes} (hab : Older a b) (hbc : Older b c) : Older a c := by
  rcases hab with hab | ⟨hab, hab'⟩
  · rcases hbc with hbc | ⟨hbc, -⟩
    · exact .inl (List.lt_trans hab hbc)
    · exact .inl (hbc ▸ hab)
  · rcases hbc with hbc | ⟨hbc, hbc'⟩
    · exact .inl (hab ▸ hbc)
    · exact .inr ⟨hab.trans hbc, List.lt_trans hab' hbc'⟩

instance : IsStrictTotalOrder (Bytes × Bytes) Older where
  trichotomous a b hab hba := by
    simp only [Older, not_or, not_and] at hab hba
    have hfetched : a.1 = b.1 := List.le_antisymm hba.1 hab.1
    exact Prod.ext hfetched (List.le_antisymm (hba.2 hfetched.symm) (hab.2 hfetched))
  irrefl := older_irrefl
  trans _ _ _ := older_trans

section Latest

variable {snapshots : List SnapshotRecord} {connectorID : Bytes}

/-- **The latest snapshot**: none of its connector is newer. -/
theorem latest_eq_some {sn : SnapshotRecord} (h : latest snapshots connectorID = some sn) :
    sn ∈ snapshots ∧ sn.connectorID = connectorID ∧
      ∀ r ∈ snapshots, r.connectorID = connectorID → ¬ Older sn.key r.key := by
  obtain ⟨tail, hfound⟩ := List.head?_eq_some_iff.1 h
  have hmem : ∀ r : SnapshotRecord, r ∈ sn :: tail ↔
      r ∈ snapshots ∧ r.connectorID = connectorID := by
    intro r
    rw [← hfound, Keyset.mem_found, List.mem_filter, beq_iff_eq]
    exact and_iff_left rfl
  have hsorted : (sn :: tail).Pairwise (Keyset.NotBefore Older SnapshotRecord.key) :=
    hfound ▸ List.pairwise_insertionSort _ _
  obtain ⟨hsn, hconnector⟩ := (hmem sn).1 List.mem_cons_self
  refine ⟨hsn, hconnector, fun r hr hrc => ?_⟩
  rcases List.mem_cons.1 ((hmem r).2 ⟨hr, hrc⟩) with rfl | htail
  · exact older_irrefl _
  · exact (List.pairwise_cons.1 hsorted).1 r htail

theorem exists_latest {r : SnapshotRecord} (hr : r ∈ snapshots) :
    ∃ sn, latest snapshots r.connectorID = some sn := by
  have hfound : r ∈ Keyset.found Older SnapshotRecord.key
      (snapshots.filter fun sn => sn.connectorID == r.connectorID) none :=
    Keyset.mem_found.2 ⟨List.mem_filter.2 ⟨hr, beq_self_eq_true _⟩, rfl⟩
  exact Option.isSome_iff_exists.1 (List.isSome_head?.2 (List.ne_nil_of_mem hfound))

end Latest

/-! ### What a statement leaves -/

section Batch

variable {golden : List GoldenSnapshotRecord} {cutoff : Bytes}
  {snapshots rest gone : List SnapshotRecord}

theorem oldSnapshot_eq_true {sn : SnapshotRecord} :
    oldSnapshot golden cutoff snapshots sn = true ↔ sn.fetchedAt < cutoff ∧
      (∀ g ∈ golden, g.snapshotID ≠ sn.id) ∧
      ∃ n ∈ snapshots, n.connectorID = sn.connectorID ∧ Older sn.key n.key := by
  simp only [oldSnapshot, Bool.and_eq_true, decide_eq_true_eq, Bool.not_eq_true',
    List.any_eq_false, List.any_eq_true, beq_iff_eq, and_assoc]

/-- **Something newer stays** where there is something newer: the newest snapshot is not old. -/
theorem exists_newer_left (hperm : snapshots.Perm (gone ++ rest))
    (hgone : ∀ a ∈ gone, oldSnapshot golden cutoff snapshots a = true) {sn n : SnapshotRecord}
    (hn : n ∈ snapshots) (hconnector : n.connectorID = sn.connectorID)
    (hnewer : Older sn.key n.key) :
    ∃ m ∈ rest, m.connectorID = sn.connectorID ∧ Older sn.key m.key := by
  obtain ⟨m, hlatest⟩ := exists_latest hn
  obtain ⟨hm, hmc, hmax⟩ := latest_eq_some hlatest
  have hrest : m ∈ rest := by
    refine (List.mem_append.1 (hperm.mem_iff.1 hm)).resolve_left fun hmem => ?_
    obtain ⟨-, -, r, hr, hrc, hrnewer⟩ := oldSnapshot_eq_true.1 (hgone m hmem)
    exact hmax r hr (hrc.trans hmc) hrnewer
  refine ⟨m, hrest, hmc.trans hconnector, ?_⟩
  rcases trichotomous_of Older m.key n.key with h | h | h
  · exact absurd h (hmax n hn rfl)
  · exact h ▸ hnewer
  · exact older_trans hnewer h

/-- **What is to be deleted does not depend on what is.** -/
theorem stable_oldSnapshot (golden : List GoldenSnapshotRecord) (cutoff : Bytes) :
    Batches.Stable (oldSnapshot golden cutoff) := by
  intro snapshots rest gone hperm hgone sn _
  refine Bool.eq_iff_iff.2 (oldSnapshot_eq_true.trans (Iff.trans ?_ oldSnapshot_eq_true.symm))
  refine and_congr_right fun _ => and_congr_right fun _ => ⟨?_, ?_⟩
  · rintro ⟨n, hn, hnewer⟩
    exact ⟨n, hperm.mem_iff.2 (List.mem_append_right _ hn), hnewer⟩
  · rintro ⟨n, hn, hconnector, hnewer⟩
    exact exists_newer_left hperm hgone hn hconnector hnewer

end Batch

/-- The cascade finds nothing to delete: pinned snapshots stay. -/
theorem Valid.cascade {t : Tables} (h : Valid t) : t.cascade = t := by
  have hgolden : t.golden.filter (fun g => t.snapshots.any fun sn => sn.id == g.snapshotID) =
      t.golden := by
    refine List.filter_eq_self.2 fun g hg => ?_
    obtain ⟨sn, hsn, hid, -⟩ := h.golden g hg
    exact List.any_eq_true.2 ⟨sn, hsn, beq_iff_eq.2 hid⟩
  rw [Tables.cascade, hgolden]

/-- **A statement of a cleanup** leaves valid tables, with the pins as they were. -/
theorem Valid.deleteBatch {t t' : Tables} {cutoff : Bytes} {gone : List SnapshotRecord}
    (h : Valid t) (hbatch : DeleteBatch cutoff t t' gone) :
    Valid t' ∧ ∃ rest, Batches.Batch (oldSnapshot t.golden cutoff) retentionBatchSize t.snapshots
      rest gone ∧ t' = { t with snapshots := rest } := by
  obtain ⟨rest, hrest, rfl⟩ := hbatch
  have hvalid : Valid { t with snapshots := rest } := by
    refine ⟨h.ids.sublist (hrest.sublist.map _), fun sn hsn => ?_, fun g hg => ?_⟩
    · exact h.made sn (hrest.sublist.subset hsn)
    · obtain ⟨sn, hsn, hid, hconnector⟩ := h.golden g hg
      refine ⟨sn, (List.mem_append.1 (hrest.perm.mem_iff.1 hsn)).resolve_left fun hmem => ?_, hid,
        hconnector⟩
      exact (oldSnapshot_eq_true.1 (hrest.chosen sn hmem)).2.1 g hg hid.symm
  rw [hvalid.cascade]
  exact ⟨hvalid, rest, hrest, rfl⟩

/-! ### With and without cleanups -/

/-- The tables `t`, that cleanups went over, next to the tables `u` of the same writes without
them: what is missing is not pinned, and something newer is there. -/
structure Swept (t u : Tables) : Prop where
  connectors : t.connectors = u.connectors
  golden : t.golden = u.golden
  made : t.made = u.made
  sublist : t.snapshots.Sublist u.snapshots
  newer : ∀ sn ∈ u.snapshots, sn ∈ t.snapshots ∨
    ∃ n ∈ t.snapshots, n.connectorID = sn.connectorID ∧ Older sn.key n.key
  swept : Valid t
  whole : Valid u

theorem Swept.refl {t : Tables} (h : Valid t) : Swept t t :=
  ⟨rfl, rfl, rfl, .refl _, fun _ => .inl, h, h⟩

theorem Swept.getSnapshotByID {t u : Tables} (h : Swept t u) {sn : SnapshotRecord}
    (hsn : sn ∈ t.snapshots) :
    getSnapshotByID t sn.id = some sn ∧ getSnapshotByID u sn.id = some sn :=
  ⟨h.swept.ids.lookup_of_mem hsn, h.whole.ids.lookup_of_mem (h.sublist.subset hsn)⟩

theorem Swept.getLatestSnapshot {t u : Tables} (h : Swept t u) (connectorID : Bytes) :
    getLatestSnapshot t connectorID = getLatestSnapshot u connectorID := by
  cases hu : Retention.getLatestSnapshot u connectorID with
  | none =>
      cases ht : Retention.getLatestSnapshot t connectorID with
      | none => rfl
      | some sn =>
          obtain ⟨hsn, rfl, -⟩ := latest_eq_some ht
          obtain ⟨sn', hsn'⟩ := exists_latest (h.sublist.subset hsn)
          exact nomatch hu.symm.trans hsn'
  | some sn =>
      obtain ⟨hsn, rfl, hmax⟩ := latest_eq_some hu
      -- Nothing is newer than the newest snapshot of all, so that it is not among those deleted.
      have hkept : sn ∈ t.snapshots := by
        refine (h.newer sn hsn).resolve_right ?_
        rintro ⟨n, hn, hconnector, hnewer⟩
        exact hmax n (h.sublist.subset hn) hconnector hnewer
      obtain ⟨sn', ht⟩ := exists_latest hkept
      obtain ⟨hsn', hconnector, hmax'⟩ := latest_eq_some ht
      have hkey : sn'.key = sn.key := by
        rcases trichotomous_of Older sn'.key sn.key with hlt | heq | hgt
        · exact absurd hlt (hmax' sn hkept rfl)
        · exact heq
        · exact absurd hgt (hmax sn' (h.sublist.subset hsn') hconnector)
      rw [h.swept.ids.eq_of_key hsn' hkept (congrArg Prod.snd hkey)] at ht
      exact ht

theorem Swept.deleteBatch {t t' u : Tables} {cutoff : Bytes} {gone : List SnapshotRecord}
    (h : Swept t u) (hbatch : DeleteBatch cutoff t t' gone) : Swept t' u := by
  obtain ⟨hvalid, rest, hrest, rfl⟩ := h.swept.deleteBatch hbatch
  refine ⟨h.connectors, h.golden, h.made, hrest.sublist.trans h.sublist, fun sn hsn => ?_, hvalid,
    h.whole⟩
  rcases h.newer sn hsn with hmem | ⟨n, hn, hconnector, hnewer⟩
  · rcases List.mem_append.1 (hrest.perm.mem_iff.1 hmem) with hgone | hleft
    · obtain ⟨-, -, n, hn, hconnector, hnewer⟩ := oldSnapshot_eq_true.1 (hrest.chosen sn hgone)
      exact .inr (exists_newer_left hrest.perm hrest.chosen hn hconnector hnewer)
    · exact .inl hleft
  · exact .inr (exists_newer_left hrest.perm hrest.chosen hn hconnector hnewer)

/-! ### Writes -/

/-- What goes with a connector is all that its deletion takes: pins of others stay. -/
theorem Valid.deleteConnector {t : Tables} (h : Valid t) (id : Bytes) :
    Valid (deleteConnector t id) ∧ deleteConnector t id =
      { t with
        connectors := t.connectors.filter (· != id)
        snapshots := t.snapshots.filter fun sn => sn.connectorID != id
        golden := t.golden.filter fun g => g.connectorID != id } := by
  have hvalid : Valid { t with
      connectors := t.connectors.filter (· != id)
      snapshots := t.snapshots.filter fun sn => sn.connectorID != id
      golden := t.golden.filter fun g => g.connectorID != id } := by
    refine ⟨h.ids.filter _, fun sn hsn => h.made sn (List.mem_filter.1 hsn).1, fun g hg => ?_⟩
    obtain ⟨hg, hother⟩ := List.mem_filter.1 hg
    obtain ⟨sn, hsn, hid, hconnector⟩ := h.golden g hg
    exact ⟨sn, List.mem_filter.2 ⟨hsn, hconnector ▸ hother⟩, hid, hconnector⟩
  rw [Retention.deleteConnector, hvalid.cascade]
  exact ⟨hvalid, rfl⟩

theorem createSnapshot_eq_some {t t' : Tables} {sn : SnapshotRecord} :
    createSnapshot t sn = some t' ↔ ∃ normalized, normalizeSnapshotTime sn.fetchedAt =
      some normalized ∧ sn.connectorID ∈ t.connectors ∧ sn.id ∉ t.made ∧ t' = { t with
        snapshots := t.snapshots ++ [{ sn with fetchedAt := normalized }],
        made := sn.id :: t.made } := by
  simp only [createSnapshot, Option.bind_eq_bind, Option.bind_eq_some_iff,
    Option.ite_none_right_eq_some, Option.some.injEq, and_assoc, eq_comm (a := t')]

theorem pinGoldenSnapshot_eq_some {t t' : Tables} {g : GoldenSnapshotRecord} :
    pinGoldenSnapshot t g = some t' ↔ ∃ sn, getSnapshotByID t g.snapshotID = some sn ∧
      sn.connectorID = g.connectorID ∧
        t' = { t with golden := put GoldenSnapshotRecord.connectorID t.golden g } := by
  rw [pinGoldenSnapshot]
  cases getSnapshotByID t g.snapshotID with
  | none => simp
  | some sn => simp only [Option.ite_none_right_eq_some, Option.some.injEq, exists_eq_left',
      eq_comm (a := t')]

/-- **Writes keep what the tables have to keep.** -/
theorem Valid.write {t t' : Tables} {w : Write} (h : Valid t) (hw : t.write w = some t') :
    Valid t' := by
  cases w with
  | createConnector id =>
      obtain ⟨-, heq⟩ := Option.ite_none_left_eq_some.1 hw
      obtain rfl := Option.some.inj heq
      exact ⟨h.ids, h.made, h.golden⟩
  | createSnapshot sn =>
      obtain ⟨normalized, -, -, hfresh, rfl⟩ := createSnapshot_eq_some.1 hw
      refine ⟨h.ids.append_singleton (lookup_eq_none.2 fun r hr heq => ?_), fun r hr => ?_,
        fun g hg => ?_⟩
      · exact hfresh (heq ▸ h.made r hr)
      · rcases List.mem_append.1 hr with hr | hr
        · exact List.mem_cons_of_mem _ (h.made r hr)
        · obtain rfl := List.mem_singleton.1 hr
          exact List.mem_cons_self
      · obtain ⟨r, hr, hpinned⟩ := h.golden g hg
        exact ⟨r, List.mem_append_left _ hr, hpinned⟩
  | pin g =>
      obtain ⟨sn, hsn, hconnector, rfl⟩ := pinGoldenSnapshot_eq_some.1 hw
      refine ⟨h.ids, h.made, fun g' hg' => ?_⟩
      rcases mem_put hg' with rfl | hg'
      · obtain ⟨hmem, hid⟩ := lookup_eq_some hsn
        exact ⟨sn, hmem, hid, hconnector⟩
      · exact h.golden g' hg'
  | unpin id =>
      obtain rfl := Option.some.inj hw
      exact ⟨h.ids, h.made, fun g hg => h.golden g (List.mem_filter.1 hg).1⟩
  | deleteConnector id =>
      obtain ⟨-, heq⟩ := Option.ite_none_right_eq_some.1 hw
      obtain rfl := Option.some.inj heq
      exact (h.deleteConnector id).1

/-- **A write goes through without the cleanups too**, and leads to tables that agree. -/
theorem Swept.write {t t' u : Tables} {w : Write} (h : Swept t u) (hw : t.write w = some t') :
    ∃ u', u.write w = some u' ∧ Swept t' u' := by
  suffices hparts : ∃ u', u.write w = some u' ∧ t'.connectors = u'.connectors ∧
      t'.golden = u'.golden ∧ t'.made = u'.made ∧ t'.snapshots.Sublist u'.snapshots ∧
      ∀ sn ∈ u'.snapshots, sn ∈ t'.snapshots ∨
        ∃ n ∈ t'.snapshots, n.connectorID = sn.connectorID ∧ Older sn.key n.key by
    obtain ⟨u', hu', hconnectors, hgolden, hmade, hsublist, hnewer⟩ := hparts
    exact ⟨u', hu', hconnectors, hgolden, hmade, hsublist, hnewer, h.swept.write hw,
      h.whole.write hu'⟩
  cases w with
  | createConnector id =>
      obtain ⟨hnew, heq⟩ := Option.ite_none_left_eq_some.1 hw
      obtain rfl := Option.some.inj heq
      exact ⟨_, if_neg (h.connectors ▸ hnew), congrArg (id :: ·) h.connectors, h.golden, h.made,
        h.sublist, h.newer⟩
  | createSnapshot sn =>
      obtain ⟨normalized, hnormalized, hconnector, hfresh, rfl⟩ := createSnapshot_eq_some.1 hw
      refine ⟨_, createSnapshot_eq_some.2 ⟨normalized, hnormalized, h.connectors ▸ hconnector,
        h.made ▸ hfresh, rfl⟩, h.connectors, h.golden, congrArg (sn.id :: ·) h.made,
        h.sublist.append (.refl _), fun r hr => ?_⟩
      rcases List.mem_append.1 hr with hr | hr
      · rcases h.newer r hr with hmem | ⟨n, hn, hnewer⟩
        · exact .inl (List.mem_append_left _ hmem)
        · exact .inr ⟨n, List.mem_append_left _ hn, hnewer⟩
      · exact .inl (List.mem_append_right _ hr)
  | pin g =>
      obtain ⟨sn, hsn, hconnector, rfl⟩ := pinGoldenSnapshot_eq_some.1 hw
      obtain ⟨hmem, hid⟩ := lookup_eq_some hsn
      refine ⟨_, pinGoldenSnapshot_eq_some.2 ⟨sn, ?_, hconnector, rfl⟩, h.connectors,
        congrArg (put _ · g) h.golden, h.made, h.sublist, h.newer⟩
      exact hid ▸ (h.getSnapshotByID hmem).2
  | unpin id =>
      obtain rfl := Option.some.inj hw
      exact ⟨_, rfl, h.connectors, congrArg (List.filter _) h.golden, h.made, h.sublist, h.newer⟩
  | deleteConnector id =>
      obtain ⟨hthere, heq⟩ := Option.ite_none_right_eq_some.1 hw
      obtain rfl := Option.some.inj heq
      refine ⟨_, if_pos (h.connectors ▸ hthere), ?_⟩
      rw [(h.swept.deleteConnector id).2, (h.whole.deleteConnector id).2]
      refine ⟨congrArg (List.filter _) h.connectors, congrArg (List.filter _) h.golden, h.made,
        h.sublist.filter _, fun sn hsn => ?_⟩
      obtain ⟨hsn, hother⟩ := List.mem_filter.1 hsn
      rcases h.newer sn hsn with hmem | ⟨n, hn, hconnector, hnewer⟩
      · exact .inl (List.mem_filter.2 ⟨hmem, hother⟩)
      · exact .inr ⟨n, List.mem_filter.2 ⟨hn, hconnector ▸ hother⟩, hconnector, hnewer⟩

/-! ### Whole runs -/

theorem swept_run {t₀ t : Tables} {events : List Event} (hvalid : Valid t₀)
    (h : machine.Run t₀ events t) :
    ∃ u, (events.filterMap Event.write?).foldlM Tables.write t₀ = some u ∧ Swept t u := by
  induction h with
  | nil => exact ⟨t₀, rfl, .refl hvalid⟩
  | @snoc t t' events event _ hstep ih =>
      obtain ⟨u, hu, hswept⟩ := ih
      cases hstep with
      | @write w _ hw =>
          obtain ⟨u', hu', hswept'⟩ := hswept.write hw
          refine ⟨u', ?_, hswept'⟩
          rw [List.filterMap_append, List.foldlM_append, hu]
          simpa [Event.write?] using hu'
      | deleteBatch _ hbatch =>
          refine ⟨u, ?_, hswept.deleteBatch hbatch⟩
          rw [List.filterMap_append, List.foldlM_append, hu]
          rfl

/-- **Nobody can tell that a cleanup ran** who asks for the newest snapshot of a connector, for a
pin or for a pinned snapshot: the same writes without any cleanup go through, and lead to tables
that answer the same; and each pinned snapshot is there. -/
theorem cleanup_unseen {t₀ t : Tables} {events : List Event} (hvalid : Valid t₀)
    (h : machine.Run t₀ events t) :
    ∃ u, (events.filterMap Event.write?).foldlM Tables.write t₀ = some u ∧
      ∀ connectorID, getLatestSnapshot t connectorID = getLatestSnapshot u connectorID ∧
        getGoldenSnapshot t connectorID = getGoldenSnapshot u connectorID ∧
        ∀ g, getGoldenSnapshot t connectorID = some g → ∃ sn,
          getSnapshotByID t g.snapshotID = some sn ∧ getSnapshotByID u g.snapshotID = some sn ∧
            sn.connectorID = connectorID := by
  obtain ⟨u, hu, hswept⟩ := swept_run hvalid h
  refine ⟨u, hu, fun connectorID => ⟨hswept.getLatestSnapshot connectorID, ?_, fun g hg => ?_⟩⟩
  · rw [getGoldenSnapshot, getGoldenSnapshot, hswept.golden]
  · obtain ⟨hmem, rfl⟩ := lookup_eq_some hg
    obtain ⟨sn, hsn, hid, hconnector⟩ := hswept.swept.golden g hmem
    obtain ⟨ht, hu'⟩ := hswept.getSnapshotByID hsn
    exact ⟨sn, hid ▸ ht, hid ▸ hu', hconnector⟩

/-! ### A cleanup alone -/

theorem Cleanup.loop {t t' : Tables} {cutoff : Bytes} {total statements : ℕ}
    (h : Cleanup cutoff t' t total statements) (hvalid : Valid t) :
    ∃ rest, t' = { t with snapshots := rest } ∧
      Batches.Loop (oldSnapshot t.golden cutoff) retentionBatchSize rest t.snapshots total
        statements := by
  induction h with
  | last hbatch hlast =>
      obtain ⟨-, rest, hrest, rfl⟩ := hvalid.deleteBatch hbatch
      exact ⟨rest, rfl, .last hrest hlast⟩
  | more hbatch hmore _ ih =>
      obtain ⟨hvalid', rest, hrest, rfl⟩ := hvalid.deleteBatch hbatch
      obtain ⟨rest', rfl, hloop⟩ := ih hvalid'
      exact ⟨rest', rfl, .more hrest hmore hloop⟩

theorem exists_cleanup {t : Tables} {cutoff : Bytes} {rest rows : List SnapshotRecord}
    {total statements : ℕ} (hvalid : Valid t) (hrows : t.snapshots = rows)
    (h : Batches.Loop (oldSnapshot t.golden cutoff) retentionBatchSize rest rows total
      statements) : ∃ t', Cleanup cutoff t' t total statements := by
  generalize hgolden : t.golden = golden at h
  induction h generalizing t with
  | last hbatch hlast =>
      subst hrows hgolden
      exact ⟨_, .last ⟨rest, hbatch, rfl⟩ hlast⟩
  | @more rows mid gone total statements hbatch hmore _ ih =>
      subst hrows hgolden
      have hstatement : DeleteBatch cutoff t (Tables.cascade { t with snapshots := mid }) gone :=
        ⟨mid, hbatch, rfl⟩
      have hvalid' := (hvalid.deleteBatch hstatement).1
      have hsame : ({ t with snapshots := mid } : Tables).cascade.golden = t.golden := by
        obtain ⟨-, rest', -, heq⟩ := hvalid.deleteBatch hstatement
        rw [heq]
      obtain ⟨t', hcleanup⟩ := ih hvalid' rfl hsame
      exact ⟨t', .more hstatement hmore hcleanup⟩

/-- **What a cleanup deletes**: with nothing written between its statements it comes to an end,
having deleted the snapshots that were old at its start, whichever rows the statements chose, and
tells their number. -/
theorem deleteOldSnapshots_spec {t : Tables} (hvalid : Valid t) (cutoff : Bytes) :
    (∃ t' total statements, Cleanup cutoff t' t total statements) ∧
      ∀ t' total statements, Cleanup cutoff t' t total statements →
        t' = { t with
          snapshots := t.snapshots.filter fun sn => !oldSnapshot t.golden cutoff t.snapshots sn } ∧
        total = t.snapshots.countP (oldSnapshot t.golden cutoff t.snapshots) ∧
        statements = total / retentionBatchSize + 1 := by
  have hlimit : 0 < retentionBatchSize := by decide
  have hstable := stable_oldSnapshot t.golden cutoff
  refine ⟨?_, fun t' total statements hcleanup => ?_⟩
  · obtain ⟨rest, total, statements, hloop⟩ := Batches.exists_loop hstable hlimit t.snapshots
    obtain ⟨t', hcleanup⟩ := exists_cleanup hvalid rfl hloop
    exact ⟨t', total, statements, hcleanup⟩
  · obtain ⟨rest, rfl, hloop⟩ := hcleanup.loop hvalid
    obtain ⟨rfl, htotal, hstatements⟩ := hloop.spec hstable hlimit
    exact ⟨rfl, htotal, hstatements⟩

/-! ### Three snapshots -/

/-- Three snapshots of one connector, of the first instants there are. -/
def threeSnapshots : Tables where
  connectors := [[1]]
  snapshots := [⟨[1], [1], [], timestamp 0⟩, ⟨[2], [1], [], timestamp 1⟩,
    ⟨[3], [1], [], timestamp 2⟩]
  golden := []
  made := [[1], [2], [3]]

theorem valid_threeSnapshots : Valid threeSnapshots :=
  ⟨by decide, by decide, fun _ hg => absurd hg List.not_mem_nil⟩

/-- The oldest one is pinned; then a cleanup deletes the one between it and the newest. -/
theorem run_threeSnapshots : ∃ t, machine.Run threeSnapshots
    [.write (.pin ⟨[1], [1], [], []⟩), .deleteBatch (timestamp 3)] t ∧ t.snapshots.length = 2 := by
  have hcutoff : normalizeSnapshotTime (timestamp 3) = some (timestamp 3) := by
    rw [normalizeSnapshotTime, parseTime_timestamp (by decide)]
    rfl
  have hpin : Step threeSnapshots (.write (.pin ⟨[1], [1], [], []⟩))
      { threeSnapshots with golden := [⟨[1], [1], [], []⟩] } := .write rfl
  have hbatch : ∃ t', DeleteBatch (timestamp 3) { threeSnapshots with
      golden := [⟨[1], [1], [], []⟩] } t' [⟨[2], [1], [], timestamp 1⟩] ∧
        t'.snapshots.length = 2 := by
    refine ⟨_, ⟨[⟨[1], [1], [], timestamp 0⟩, ⟨[3], [1], [], timestamp 2⟩], ⟨.swap _ _ _, ?_, ?_,
      ?_⟩, rfl⟩, rfl⟩
    · exact .cons_cons _ (.cons _ (.refl _))
    · decide
    · decide
  obtain ⟨t', hdelete, hlength⟩ := hbatch
  exact ⟨t', (Machine.Run.single hpin).snoc (.deleteBatch hcutoff hdelete), hlength⟩

theorem cleanup_unseen_three_snapshots : ∃ t u, t.snapshots.length = 2 ∧
    pinGoldenSnapshot threeSnapshots ⟨[1], [1], [], []⟩ = some u ∧
      getLatestSnapshot t [1] = getLatestSnapshot u [1] := by
  obtain ⟨t, hrun, hlength⟩ := run_threeSnapshots
  obtain ⟨u, hu, hread⟩ := cleanup_unseen valid_threeSnapshots hrun
  exact ⟨t, u, hlength, hu ▸ rfl, (hread [1]).1⟩

theorem deleteOldSnapshots_spec_three_snapshots : ∃ t' total statements,
    Cleanup (timestamp 3) t' threeSnapshots total statements :=
  (deleteOldSnapshots_spec valid_threeSnapshots (timestamp 3)).1

end WiseLabz.Retention
