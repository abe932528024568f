/-
**Storing a snapshot and its changes.**

A sync compares the fetched snapshot with the latest stored one, stores it unless it is the same,
and records the differences.  A section that could not be observed keeps the content of the stored
one.  A difference that was already recorded within the last hour is one grade more severe.

Main definitions:

* `Sync.preserveFailedSections` — the contents that a failed section keeps;
* `Sync.createSyncChanges` — the recorded changes of differences;
* `Sync.persistSyncSnapshot` — **the persisted part of a sync**.

Main results:

* `Sync.createSyncChanges_drifts` — the recorded changes are the differences, each with the severity
  that the earlier changes give it.
-/

import WiseLabz.Lib.Sha1
import WiseLabz.Sync.Snapshot

set_option relaxedAutoImplicit false
set_option autoImplicit false

namespace WiseLabz.Sync

open Lib

variable {ι : Type}

/-! ### Failed sections -/

/-- A failed section with the content that is stored under its title, or none. -/
def preserveSection (old : ServiceSnapshot ι) (s : SnapshotSection) : SnapshotSection :=
  if s.error ≠ [] then
    { s with content := ((sectionAt old s.title).map SnapshotSection.content).getD [] }
  else s

/-- **What a snapshot with failed sections keeps of the stored one**: their contents, and the whole
inventory. -/
def preserveFailedSections (old sn : ServiceSnapshot ι) : ServiceSnapshot ι :=
  { sn with
    sections := sn.sections.map (preserveSection old)
    dependencies := old.dependencies
    inventory := old.inventory }

/-- Failed sections without a stored snapshot have no content. -/
def clearFailedSections (sn : ServiceSnapshot ι) : ServiceSnapshot ι :=
  { sn with sections := sn.sections.map fun s => if s.error ≠ [] then { s with content := [] } else s }

/-! ### Changes -/

/-- A recorded change.  Its alert, its status and its affected docs are left out. -/
structure ChangeRecord where
  serviceID : Bytes
  changeType : ChangeType
  severity : Severity
  summary : Bytes
  diff : DiffPatch
  relatedServiceIDs : List Bytes
  patternID : Bytes
  detectedAt : ℕ
  deriving DecidableEq, Repr

/-- What a change tells. -/
def ChangeRecord.drift (c : ChangeRecord) : Drift :=
  ⟨c.changeType, c.diff.title, c.severity, c.diff.old, c.diff.new⟩

/-- The text that identifies a kind of change. -/
def patternText (connectorID : Bytes) (changeType : ChangeType) (summary : Bytes) : Bytes :=
  connectorID ++ bytes "|" ++ changeType.text ++ bytes "|" ++ summary

def changePatternID (connectorID : Bytes) (changeType : ChangeType) (summary : Bytes) : Bytes :=
  hexEncode (Sha1.sum (patternText connectorID changeType summary))

/-- One grade more severe. -/
def Severity.raised : Severity → Severity
  | .info => .warning
  | .warning => .critical
  | .critical => .critical

/-- How far back a change counts as a repeat, in seconds. -/
def repeatDriftWindow : ℕ := 3600

/-- The pattern ids of the changes of a connector that were recorded within the window. -/
def countRecentChangePatterns (changes : List ChangeRecord) (serviceID : Bytes) (now : ℕ) :
    List Bytes :=
  ((changes.filter fun c =>
      c.serviceID = serviceID ∧ now ≤ c.detectedAt + repeatDriftWindow).map
    ChangeRecord.patternID).filter (· ≠ [])

/-- The summary of a change that was seen `n` times. -/
def recurringSummary (summary : Bytes) (n : ℕ) : Bytes :=
  summary ++ bytes " (recurring " ++ [0xE2, 0x80, 0x94] ++ bytes (" seen " ++ toString n) ++
    bytes " time(s) in the last hour)"

/-- The change of a difference, given the pattern ids recorded before. -/
def recordOf (connectorID : Bytes) (now : ℕ) (recent : List Bytes) (d : DiffResult) : ChangeRecord :=
  let pattern := changePatternID connectorID d.changeType d.summary
  let n := recent.count pattern
  { serviceID := connectorID
    changeType := d.changeType
    severity := if 0 < n then d.severity.raised else d.severity
    summary := if 0 < n then recurringSummary d.summary n else d.summary
    diff := d.patch
    relatedServiceIDs := d.relatedServiceIDs
    patternID := pattern
    detectedAt := now }

/-- **The changes of differences**: each counts for those after it. -/
def createSyncChanges (connectorID : Bytes) (now : ℕ) : List Bytes → List DiffResult →
    List ChangeRecord
  | _, [] => []
  | recent, d :: ds =>
      let change := recordOf connectorID now recent d
      change :: createSyncChanges connectorID now (recent ++ [change.patternID]) ds

/-- The pattern id of a difference that tells `v`. -/
def Drift.patternID (connectorID : Bytes) (v : Drift) : Bytes :=
  changePatternID connectorID v.changeType (summaryOf v.changeType v.title)

/-- What the recorded change tells, given the pattern ids recorded before. -/
def Drift.escalated (connectorID : Bytes) (recent : List Bytes) (v : Drift) : Drift :=
  { v with
    severity := if v.patternID connectorID ∈ recent then v.severity.raised else v.severity }

theorem Drift.escalated_congr {connectorID : Bytes} {recent recent' : List Bytes} {v : Drift}
    (h : v.patternID connectorID ∈ recent ↔ v.patternID connectorID ∈ recent') :
    v.escalated connectorID recent = v.escalated connectorID recent' := by
  simp only [escalated, h]

/-- Only a critical drift is the same whether it recurs or not. -/
theorem Drift.escalated_eq_iff {connectorID : Bytes} {recent recent' : List Bytes} {v : Drift} :
    v.escalated connectorID recent = v.escalated connectorID recent' ↔
      (v.severity ≠ .critical →
        (v.patternID connectorID ∈ recent ↔ v.patternID connectorID ∈ recent')) := by
  by_cases h : v.patternID connectorID ∈ recent <;>
    by_cases h' : v.patternID connectorID ∈ recent' <;>
    cases hs : v.severity <;> simp [escalated, h, h', hs, Severity.raised]

section CreateSyncChanges

variable {connectorID : Bytes} {now : ℕ}

theorem recordOf_patternID {recent : List Bytes} {d : DiffResult}
    (h : d.summary = summaryOf d.changeType d.patch.title) :
    (recordOf connectorID now recent d).patternID = d.drift.patternID connectorID := by
  rw [recordOf, h]
  rfl

theorem recordOf_drift {recent : List Bytes} {d : DiffResult}
    (h : d.summary = summaryOf d.changeType d.patch.title) :
    (recordOf connectorID now recent d).drift = d.drift.escalated connectorID recent := by
  have hcount : 0 < recent.count (changePatternID connectorID d.changeType d.summary) ↔
      d.drift.patternID connectorID ∈ recent := by
    rw [List.count_pos_iff, h]
    rfl
  simp only [ChangeRecord.drift, recordOf, Drift.escalated, hcount]
  rfl

/-- The changes tell the differences, up to their severities. -/
theorem createSyncChanges_map {β : Type} (f : Drift → β)
    (hf : ∀ v recent, f (v.escalated connectorID recent) = f v) {ds : List DiffResult}
    (h : ∀ d ∈ ds, d.summary = summaryOf d.changeType d.patch.title) (recent : List Bytes) :
    (createSyncChanges connectorID now recent ds).map (fun c => f c.drift) =
      ds.map fun d => f d.drift := by
  induction ds generalizing recent with
  | nil => rfl
  | cons d ds ih =>
      rw [createSyncChanges, List.map_cons, List.map_cons, recordOf_drift (h d (by simp)), hf,
        ih fun d hd => h d (List.mem_cons_of_mem _ hd)]

theorem createSyncChanges_patternIDs {ds : List DiffResult}
    (h : ∀ d ∈ ds, d.summary = summaryOf d.changeType d.patch.title) (recent : List Bytes) :
    (createSyncChanges connectorID now recent ds).map ChangeRecord.patternID =
      ds.map fun d => d.drift.patternID connectorID := by
  induction ds generalizing recent with
  | nil => rfl
  | cons d ds ih =>
      rw [createSyncChanges, List.map_cons, List.map_cons, recordOf_patternID (h d (by simp)),
        ih fun d hd => h d (List.mem_cons_of_mem _ hd)]

/-- **The changes tell the differences**, each with the severity that the earlier changes give it,
if no two have the same pattern. -/
theorem createSyncChanges_drifts {ds : List DiffResult}
    (h : ∀ d ∈ ds, d.summary = summaryOf d.changeType d.patch.title)
    (hpatterns : (ds.map fun d => d.drift.patternID connectorID).Nodup) (recent : List Bytes) :
    (createSyncChanges connectorID now recent ds).map ChangeRecord.drift =
      (ds.map DiffResult.drift).map (Drift.escalated connectorID recent) := by
  induction ds generalizing recent with
  | nil => rfl
  | cons d ds ih =>
      obtain ⟨hd, hds⟩ := List.nodup_cons.1 hpatterns
      simp only [createSyncChanges, List.map_cons]
      rw [recordOf_drift (h d (by simp)), recordOf_patternID (h d (by simp)),
        ih (fun d hd => h d (List.mem_cons_of_mem _ hd)) hds]
      congr 1
      -- the change of `d` is no repeat for the ones after it
      refine List.map_congr_left fun v hv => Drift.escalated_congr ?_
      obtain ⟨e, he, rfl⟩ := List.mem_map.1 hv
      rw [List.mem_append, List.mem_singleton, or_iff_left]
      exact fun heq => hd (List.mem_map.2 ⟨e, he, heq⟩)

end CreateSyncChanges

/-! ### A sync -/

/-- The latest stored snapshot, which may not be readable. -/
inductive Baseline (ι : Type)
  | absent
  | unreadable
  | snapshot (old : ServiceSnapshot ι)

/-- What is stored of the connectors: the latest snapshot of the one that is synced, and the
changes. -/
structure SyncStore (ι : Type) where
  latest : Baseline ι
  changes : List ChangeRecord

/-- Two snapshots have the same JSON form. -/
def snapshotContentEqual (js : InventoryJson ι) (a b : ServiceSnapshot ι) : Prop :=
  jsonEncode a.serviceName = jsonEncode b.serviceName ∧ jsonEncode a.type = jsonEncode b.type ∧
    (a.sections.map fun s => (jsonEncode s.title, jsonEncode s.content, jsonEncode s.error)) =
      (b.sections.map fun s => (jsonEncode s.title, jsonEncode s.content, jsonEncode s.error)) ∧
    (a.dependencies.map fun d => (jsonEncode d.kind, jsonEncode d.name, jsonEncode d.ref)) =
      (b.dependencies.map fun d => (jsonEncode d.kind, jsonEncode d.name, jsonEncode d.ref)) ∧
    js.marshal a.inventory = js.marshal b.inventory

instance (js : InventoryJson ι) (a b : ServiceSnapshot ι) :
    Decidable (snapshotContentEqual js a b) := inferInstanceAs (Decidable (_ ∧ _))

/-- Stores a snapshot with the changes since the old one, if there is one that can be read and no
maintenance window is active. -/
def saveSyncResults (js : InventoryJson ι) (connectorID : Bytes) (now : ℕ) (maintenance : Bool)
    (st : SyncStore ι) (old : Option (ServiceSnapshot ι)) (sn : ServiceSnapshot ι) :
    List ChangeRecord × SyncStore ι :=
  let changes :=
    match old with
    | some old =>
        if maintenance then []
        else
          createSyncChanges connectorID now
            (countRecentChangePatterns st.changes connectorID now) (compare old sn)
    | none => []
  (changes, ⟨.snapshot (sn.stored js), st.changes ++ changes⟩)

/-- **The persisted part of a sync**: the changes, and the store after it.  It fails only if there
are failed sections and the stored snapshot cannot be read. -/
def persistSyncSnapshot (js : InventoryJson ι) (connectorID : Bytes) (now : ℕ) (maintenance : Bool)
    (st : SyncStore ι) (sn : ServiceSnapshot ι) : Option (List ChangeRecord × SyncStore ι) :=
  match st.latest with
  | .absent => some (saveSyncResults js connectorID now maintenance st none (clearFailedSections sn))
  | .unreadable =>
      if snapshotError sn then none
      else some (saveSyncResults js connectorID now maintenance st none sn)
  | .snapshot old =>
      let sn := if snapshotError sn then preserveFailedSections old sn else sn
      -- the same snapshot is not stored again
      if snapshotContentEqual js old sn then some ([], st)
      else some (saveSyncResults js connectorID now maintenance st (some old) sn)

/-! ### The same snapshot -/

/-- A snapshot with the JSON form of a stored one has its sections. -/
theorem sections_eq_of_snapshotContentEqual {js : InventoryJson ι} {old sn : ServiceSnapshot ι}
    (hold : old.stored js = old) (h : snapshotContentEqual js old sn) :
    old.sections = sn.sections := by
  have hsections : old.sections.map SnapshotSection.stored = old.sections :=
    congrArg ServiceSnapshot.sections hold
  have hkept : ∀ s ∈ old.sections, s.stored = s := by
    intro s hs
    exact List.map_eq_map_iff.1 (hsections.trans (List.map_id _).symm) s hs
  have hsame := h.2.2.1
  generalize old.sections = ss at hkept hsame
  generalize sn.sections = ts at hsame
  induction ss generalizing ts with
  | nil => exact (List.map_eq_nil_iff.1 hsame.symm).symm
  | cons s ss ih =>
      cases ts with
      | nil => exact absurd hsame (by simp)
      | cons t ts =>
          rw [List.map_cons, List.map_cons, List.cons.injEq] at hsame
          obtain ⟨hst, hsame⟩ := hsame
          simp only [Prod.mk.injEq] at hst
          have hs := hkept s (by simp)
          simp only [SnapshotSection.stored] at hs
          have heq : s = t := by
            cases s
            cases t
            simp only [SnapshotSection.mk.injEq] at hs ⊢
            exact ⟨jsonEncode_inj hs.1 hst.1, jsonEncode_inj hs.2.1 hst.2.1,
              jsonEncode_inj hs.2.2 hst.2.2⟩
          rw [heq, ih (fun s hs => hkept s (List.mem_cons_of_mem _ hs)) ts hsame]

/-- Two snapshots with the same sections do not differ. -/
theorem compare_eq_nil {prev curr : ServiceSnapshot ι} (h : prev.sections = curr.sections) :
    compare prev curr = [] := by
  rw [← List.map_eq_nil_iff (f := DiffResult.drift), List.eq_nil_iff_forall_not_mem]
  intro v hv
  have hdrift := mem_compare.1 hv
  have hsame : sectionAt prev v.title = sectionAt curr v.title := by
    rw [sectionAt, sectionAt, sectionMap, sectionMap, h]
  rw [hsame] at hdrift
  cases hc : sectionAt curr v.title with
  | none => simp [hc, sectionDrift] at hdrift
  | some s => simp [hc, sectionDrift] at hdrift

/-- **A sync after a readable snapshot** records the changes since that one, whether it stores the
snapshot or not. -/
theorem persistSyncSnapshot_healthy {js : InventoryJson ι} {connectorID : Bytes} {now : ℕ}
    {st : SyncStore ι} {old sn : ServiceSnapshot ι} (hst : st.latest = .snapshot old)
    (hsections : snapshotContentEqual js old sn → old.sections = sn.sections)
    (hsn : snapshotError sn = false) :
    ∃ st', persistSyncSnapshot js connectorID now false st sn =
      some (createSyncChanges connectorID now
        (countRecentChangePatterns st.changes connectorID now) (compare old sn), st') := by
  simp only [persistSyncSnapshot, hst, hsn, Bool.false_eq_true, if_false]
  by_cases hequal : snapshotContentEqual js old sn
  · rw [if_pos hequal, compare_eq_nil (hsections hequal)]
    exact ⟨st, rfl⟩
  · rw [if_neg hequal]
    exact ⟨_, rfl⟩

end WiseLabz.Sync
