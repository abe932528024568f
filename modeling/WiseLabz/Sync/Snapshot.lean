/-
**Snapshots and their differences.**

A fetch of a connector gives a snapshot: titled sections, each with a content or with the error
that kept it from being observed.  Two snapshots are compared section by section.

Main definitions:

* `Sync.ServiceSnapshot` — a snapshot; entities and metadata, which nothing here reads, are an
  arbitrary type with its JSON form;
* `Sync.ServiceSnapshot.stored` — the snapshot that is read back from the store;
* `Sync.compare` — the reported differences of two snapshots;
* `Sync.sectionDrift` — **the difference of a section**, from what is under its title before and
  after.

Main results:

* `Sync.mem_compare` — the differences are those of the sections;
* `Sync.compare_titles_nodup` — at most one of each title.
-/

import WiseLabz.Lib.JsonText
import WiseLabz.Lib.Table
import Mathlib.Data.List.Sort

set_option relaxedAutoImplicit false
set_option autoImplicit false

namespace WiseLabz.Sync

open Lib

/-! ### Snapshots -/

/-- A titled part of a snapshot; `error` is empty if it was observed. -/
structure SnapshotSection where
  title : Bytes
  content : Bytes
  error : Bytes
  deriving DecidableEq, Repr

/-- A service that the observed one relies on. -/
structure ServiceDependency where
  kind : Bytes
  name : Bytes
  ref : Bytes
  deriving DecidableEq, Repr

/-- What a fetch observed.  The instant of the fetch is left out: the comparison blanks it. -/
structure ServiceSnapshot (ι : Type) where
  serviceName : Bytes
  type : Bytes
  sections : List SnapshotSection
  dependencies : List ServiceDependency
  inventory : ι
  deriving DecidableEq

/-- The JSON form of entities and metadata, and what is read back from it. -/
structure InventoryJson (ι : Type) where
  marshal : ι → Bytes
  unmarshal : Bytes → ι

variable {ι : Type}

/-- A section that is read back from its JSON form. -/
def SnapshotSection.stored (s : SnapshotSection) : SnapshotSection :=
  ⟨jsonText s.title, jsonText s.content, jsonText s.error⟩

def ServiceDependency.stored (d : ServiceDependency) : ServiceDependency :=
  ⟨jsonText d.kind, jsonText d.name, jsonText d.ref⟩

/-- **The snapshot that is read back** from the JSON form of a snapshot. -/
def ServiceSnapshot.stored (js : InventoryJson ι) (sn : ServiceSnapshot ι) : ServiceSnapshot ι where
  serviceName := jsonText sn.serviceName
  type := jsonText sn.type
  sections := sn.sections.map SnapshotSection.stored
  dependencies := sn.dependencies.map ServiceDependency.stored
  inventory := js.unmarshal (js.marshal sn.inventory)

/-- Some section was not observed. -/
def snapshotError (sn : ServiceSnapshot ι) : Bool := sn.sections.any fun s => s.error ≠ []

/-- The sections by title: of two with one title, the last counts. -/
def sectionMap (sn : ServiceSnapshot ι) : List SnapshotSection :=
  putAll SnapshotSection.title [] sn.sections

/-- The section under a title. -/
def sectionAt (sn : ServiceSnapshot ι) (title : Bytes) : Option SnapshotSection :=
  lookup SnapshotSection.title (sectionMap sn) title

theorem sectionAt_eq_lookup {sn : ServiceSnapshot ι} (h : KeyNodup SnapshotSection.title sn.sections)
    (title : Bytes) : sectionAt sn title = lookup SnapshotSection.title sn.sections title := by
  rw [sectionAt, sectionMap, putAll_nil h]

theorem sectionAt_of_mem {sn : ServiceSnapshot ι} (h : KeyNodup SnapshotSection.title sn.sections)
    {s : SnapshotSection} (hs : s ∈ sn.sections) : sectionAt sn s.title = some s := by
  rw [sectionAt_eq_lookup h, h.lookup_of_mem hs]

theorem sectionAt_eq_some {sn : ServiceSnapshot ι} (h : KeyNodup SnapshotSection.title sn.sections)
    {title : Bytes} {s : SnapshotSection} :
    sectionAt sn title = some s ↔ s ∈ sn.sections ∧ s.title = title := by
  constructor
  · intro hs
    rw [sectionAt_eq_lookup h] at hs
    exact lookup_eq_some hs
  · rintro ⟨hs, rfl⟩
    exact sectionAt_of_mem h hs

theorem sectionAt_eq_none {sn : ServiceSnapshot ι} (h : KeyNodup SnapshotSection.title sn.sections)
    {title : Bytes} : sectionAt sn title = none ↔ ∀ s ∈ sn.sections, s.title ≠ title := by
  rw [sectionAt_eq_lookup h, lookup_eq_none]

/-! ### Differences -/

/-- The type of a difference. -/
inductive ChangeType
  | added | removed | modified
  deriving DecidableEq, Repr

/-- The word for it. -/
def ChangeType.text : ChangeType → Bytes
  | .added => bytes "added"
  | .removed => bytes "removed"
  | .modified => bytes "modified"

inductive Severity
  | info | warning | critical
  deriving DecidableEq, Repr

/-- The old and the new content of a section. -/
structure DiffPatch where
  title : Bytes
  old : Bytes
  new : Bytes
  deriving DecidableEq, Repr

/-- A detected difference, with its one patch. -/
structure DiffResult where
  changeType : ChangeType
  severity : Severity
  summary : Bytes
  patch : DiffPatch
  relatedServiceIDs : List Bytes
  deriving DecidableEq, Repr

def lineCount (s : Bytes) : ℕ := if s = [] then 0 else s.count 10 + 1

/-- Large differences are more severe. -/
def severityForChange (prev curr : Bytes) : Severity :=
  let diff := ((lineCount prev : ℤ) - lineCount curr).natAbs
  if 10 < diff then .critical else if 3 < diff then .warning else .info

/-- The services that a snapshot declares, each once. -/
def relatedServiceIDs (sn : ServiceSnapshot ι) : List Bytes :=
  distinctOn id ((sn.dependencies.map ServiceDependency.ref).filter (· ≠ []))

def sortedKeys (m : List SnapshotSection) : List Bytes :=
  (m.map SnapshotSection.title).insertionSort fun a b => ¬ b < a

/-- The section of a title is new, and was observed. -/
def addedSection (prev curr : ServiceSnapshot ι) (title : Bytes) : Option DiffResult :=
  match sectionAt prev title, sectionAt curr title with
  | none, some cs =>
      if cs.error = [] then
        some ⟨.added, .info, bytes "New section added: " ++ title, ⟨title, [], cs.content⟩,
          relatedServiceIDs curr⟩
      else none
  | _, _ => none

/-- The section of a title is gone. -/
def removedSection (prev curr : ServiceSnapshot ι) (title : Bytes) : Option DiffResult :=
  match sectionAt prev title, sectionAt curr title with
  | some ps, none =>
      some ⟨.removed, .warning, bytes "Section removed: " ++ title, ⟨title, ps.content, []⟩,
        relatedServiceIDs prev⟩
  | _, _ => none

/-- The section of a title was observed with another content. -/
def modifiedSection (prev curr : ServiceSnapshot ι) (title : Bytes) : Option DiffResult :=
  match sectionAt prev title, sectionAt curr title with
  | some ps, some cs =>
      if cs.error = [] ∧ cs.content ≠ ps.content then
        some ⟨.modified, severityForChange ps.content cs.content,
          bytes "Section modified: " ++ title, ⟨title, ps.content, cs.content⟩,
          relatedServiceIDs curr⟩
      else none
  | _, _ => none

/-- **The differences of two snapshots**: added, removed and modified sections, by title. -/
def compare (prev curr : ServiceSnapshot ι) : List DiffResult :=
  (sortedKeys (sectionMap curr)).filterMap (addedSection prev curr) ++
    (sortedKeys (sectionMap prev)).filterMap (removedSection prev curr) ++
    (sortedKeys (sectionMap curr)).filterMap (modifiedSection prev curr)

/-! ### The difference of a section -/

/-- What is told of a difference. -/
structure Drift where
  changeType : ChangeType
  title : Bytes
  severity : Severity
  old : Bytes
  new : Bytes
  deriving DecidableEq, Repr

def DiffResult.drift (d : DiffResult) : Drift :=
  ⟨d.changeType, d.patch.title, d.severity, d.patch.old, d.patch.new⟩

/-- **The difference of a section**, from what is under its title before and after. -/
def sectionDrift (title : Bytes) : Option SnapshotSection → Option SnapshotSection → Option Drift
  | none, some cs => if cs.error = [] then some ⟨.added, title, .info, [], cs.content⟩ else none
  | some ps, none => some ⟨.removed, title, .warning, ps.content, []⟩
  | some ps, some cs =>
      if cs.error = [] ∧ cs.content ≠ ps.content then
        some ⟨.modified, title, severityForChange ps.content cs.content, ps.content, cs.content⟩
      else none
  | none, none => none

/-- The summary of a difference says its type and its title. -/
def summaryOf (t : ChangeType) (title : Bytes) : Bytes :=
  match t with
  | .added => bytes "New section added: " ++ title
  | .removed => bytes "Section removed: " ++ title
  | .modified => bytes "Section modified: " ++ title

theorem sectionDrift_title {title : Bytes} {ps cs : Option SnapshotSection} {v : Drift}
    (h : sectionDrift title ps cs = some v) : v.title = title := by
  unfold sectionDrift at h
  split at h
  · split at h
    · rw [← Option.some.inj h]
    · exact absurd h (by simp)
  · rw [← Option.some.inj h]
  · split at h
    · rw [← Option.some.inj h]
    · exact absurd h (by simp)
  · exact absurd h (by simp)

section Compare

variable {prev curr : ServiceSnapshot ι} {title : Bytes} {d : DiffResult}

theorem addedSection_spec (h : addedSection prev curr title = some d) :
    (∃ cs, sectionAt prev title = none ∧ sectionAt curr title = some cs) ∧
      sectionDrift title (sectionAt prev title) (sectionAt curr title) = some d.drift ∧
      d.summary = summaryOf d.changeType d.patch.title := by
  unfold addedSection at h
  split at h
  · next cs hp hc =>
      split at h
      · next herror =>
          rw [← Option.some.inj h]
          exact ⟨⟨cs, hp, hc⟩, by simp [sectionDrift, hp, hc, herror, DiffResult.drift], rfl⟩
      · exact absurd h (by simp)
  · exact absurd h (by simp)

theorem removedSection_spec (h : removedSection prev curr title = some d) :
    (∃ ps, sectionAt prev title = some ps ∧ sectionAt curr title = none) ∧
      sectionDrift title (sectionAt prev title) (sectionAt curr title) = some d.drift ∧
      d.summary = summaryOf d.changeType d.patch.title := by
  unfold removedSection at h
  split at h
  · next ps hp hc =>
      rw [← Option.some.inj h]
      exact ⟨⟨ps, hp, hc⟩, by simp [sectionDrift, hp, hc, DiffResult.drift], rfl⟩
  · exact absurd h (by simp)

theorem modifiedSection_spec (h : modifiedSection prev curr title = some d) :
    (∃ ps cs, sectionAt prev title = some ps ∧ sectionAt curr title = some cs) ∧
      sectionDrift title (sectionAt prev title) (sectionAt curr title) = some d.drift ∧
      d.summary = summaryOf d.changeType d.patch.title := by
  unfold modifiedSection at h
  split at h
  · next ps cs hp hc =>
      split at h
      · next hchanged =>
          rw [← Option.some.inj h]
          exact ⟨⟨ps, cs, hp, hc⟩, by simp [sectionDrift, hp, hc, hchanged, DiffResult.drift], rfl⟩
      · exact absurd h (by simp)
  · exact absurd h (by simp)

/-- A difference of a section is found by one of the three passes. -/
theorem pass_of_sectionDrift {v : Drift}
    (h : sectionDrift title (sectionAt prev title) (sectionAt curr title) = some v) :
    ∃ d, (addedSection prev curr title = some d ∨ removedSection prev curr title = some d ∨
      modifiedSection prev curr title = some d) ∧ d.drift = v := by
  unfold sectionDrift at h
  split at h
  · next cs hp hc =>
      split at h
      · next herror =>
          refine ⟨_, Or.inl (by simp only [addedSection, hp, hc, if_pos herror]; rfl), ?_⟩
          exact Option.some.inj h
      · exact absurd h (by simp)
  · next ps hp hc =>
      refine ⟨_, Or.inr (Or.inl (by simp only [removedSection, hp, hc]; rfl)), ?_⟩
      exact Option.some.inj h
  · next ps cs hp hc =>
      split at h
      · next hchanged =>
          refine ⟨_, Or.inr (Or.inr (by simp only [modifiedSection, hp, hc, if_pos hchanged]; rfl)),
            ?_⟩
          exact Option.some.inj h
      · exact absurd h (by simp)
  · exact absurd h (by simp)

theorem mem_sortedKeys {sn : ServiceSnapshot ι} :
    title ∈ sortedKeys (sectionMap sn) ↔ (sectionAt sn title).isSome := by
  rw [sortedKeys, List.mem_insertionSort, List.mem_map, sectionAt, lookup_isSome]

theorem mem_compare_pass : d ∈ compare prev curr ↔ ∃ t, addedSection prev curr t = some d ∨
    removedSection prev curr t = some d ∨ modifiedSection prev curr t = some d := by
  simp only [compare, List.mem_append, List.mem_filterMap]
  constructor
  · rintro ((⟨t, -, h⟩ | ⟨t, -, h⟩) | ⟨t, -, h⟩)
    · exact ⟨t, Or.inl h⟩
    · exact ⟨t, Or.inr (Or.inl h)⟩
    · exact ⟨t, Or.inr (Or.inr h)⟩
  · rintro ⟨t, h | h | h⟩
    · obtain ⟨⟨cs, -, hc⟩, -⟩ := addedSection_spec h
      exact Or.inl (Or.inl ⟨t, mem_sortedKeys.2 (by rw [hc]; rfl), h⟩)
    · obtain ⟨⟨ps, hp, -⟩, -⟩ := removedSection_spec h
      exact Or.inl (Or.inr ⟨t, mem_sortedKeys.2 (by rw [hp]; rfl), h⟩)
    · obtain ⟨⟨ps, cs, -, hc⟩, -⟩ := modifiedSection_spec h
      exact Or.inr ⟨t, mem_sortedKeys.2 (by rw [hc]; rfl), h⟩

/-- **The differences are those of the sections.** -/
theorem mem_compare {v : Drift} : v ∈ (compare prev curr).map DiffResult.drift ↔
    sectionDrift v.title (sectionAt prev v.title) (sectionAt curr v.title) = some v := by
  rw [List.mem_map]
  constructor
  · rintro ⟨d, hd, rfl⟩
    obtain ⟨t, h⟩ := mem_compare_pass.1 hd
    have hdrift : sectionDrift t (sectionAt prev t) (sectionAt curr t) = some d.drift := by
      rcases h with h | h | h
      · exact (addedSection_spec h).2.1
      · exact (removedSection_spec h).2.1
      · exact (modifiedSection_spec h).2.1
    rwa [sectionDrift_title hdrift]
  · intro h
    obtain ⟨d, hpass, rfl⟩ := pass_of_sectionDrift h
    exact ⟨d, mem_compare_pass.2 ⟨_, hpass⟩, rfl⟩

theorem summary_of_mem_compare (h : d ∈ compare prev curr) :
    d.summary = summaryOf d.changeType d.patch.title := by
  obtain ⟨t, h | h | h⟩ := mem_compare_pass.1 h
  · exact (addedSection_spec h).2.2
  · exact (removedSection_spec h).2.2
  · exact (modifiedSection_spec h).2.2

/-- **At most one difference of each title.** -/
theorem compare_titles_nodup :
    ((compare prev curr).map fun d => d.patch.title).Nodup := by
  have hkeys : ∀ sn : ServiceSnapshot ι, (sortedKeys (sectionMap sn)).Nodup := by
    intro sn
    rw [sortedKeys, (List.perm_insertionSort _ _).nodup_iff]
    exact KeyNodup.putAll keyNodup_nil sn.sections
  have hadded : ∀ t d, addedSection prev curr t = some d → d.patch.title = t :=
    fun t d h => sectionDrift_title (addedSection_spec h).2.1
  have hremoved : ∀ t d, removedSection prev curr t = some d → d.patch.title = t :=
    fun t d h => sectionDrift_title (removedSection_spec h).2.1
  have hmodified : ∀ t d, modifiedSection prev curr t = some d → d.patch.title = t :=
    fun t d h => sectionDrift_title (modifiedSection_spec h).2.1
  rw [compare, List.map_append, List.map_append, List.append_assoc]
  refine List.Nodup.append ((map_filterMap_sublist hadded _).nodup (hkeys curr))
    (List.Nodup.append ((map_filterMap_sublist hremoved _).nodup (hkeys prev))
      ((map_filterMap_sublist hmodified _).nodup (hkeys curr)) ?_) ?_
  · -- a removed section is not in the second snapshot
    intro t ht ht'
    obtain ⟨d, hd, rfl⟩ := List.mem_map.1 ht
    obtain ⟨d', hd', heq⟩ := List.mem_map.1 ht'
    obtain ⟨u, -, hu⟩ := List.mem_filterMap.1 hd
    obtain ⟨u', -, hu'⟩ := List.mem_filterMap.1 hd'
    obtain ⟨⟨ps, -, hnone⟩, -⟩ := removedSection_spec hu
    obtain ⟨⟨ps', cs', -, hsome⟩, -⟩ := modifiedSection_spec hu'
    rw [← hmodified _ _ hu', heq, hremoved _ _ hu, hnone] at hsome
    exact absurd hsome (by simp)
  · -- an added one is not in the first
    intro t ht ht'
    obtain ⟨d, hd, rfl⟩ := List.mem_map.1 ht
    obtain ⟨u, -, hu⟩ := List.mem_filterMap.1 hd
    obtain ⟨⟨cs, hnone, -⟩, -⟩ := addedSection_spec hu
    have hprev : (sectionAt prev d.patch.title).isSome := by
      rcases List.mem_append.1 ht' with ht' | ht'
      · obtain ⟨d', hd', heq⟩ := List.mem_map.1 ht'
        obtain ⟨u', -, hu'⟩ := List.mem_filterMap.1 hd'
        obtain ⟨⟨ps', hsome, -⟩, -⟩ := removedSection_spec hu'
        rw [← heq, hremoved _ _ hu', hsome]
        rfl
      · obtain ⟨d', hd', heq⟩ := List.mem_map.1 ht'
        obtain ⟨u', -, hu'⟩ := List.mem_filterMap.1 hd'
        obtain ⟨⟨ps', cs', hsome, -⟩, -⟩ := modifiedSection_spec hu'
        rw [← heq, hmodified _ _ hu', hsome]
        rfl
    rw [hadded _ _ hu, hnone] at hprev
    exact absurd hprev (by simp)

end Compare

end WiseLabz.Sync
