/-
**A section that fails once.**

A snapshot is stored, the next fetch fails for some sections, and the one after it is healthy again.
The two syncs should tell together what a sync from the first snapshot to the last would have told.
A failed section that was stored before keeps its content, so it is compared again by the second
sync as if nothing had happened.  A failed section that is new is stored without a content, and the
second sync tells that it was modified, where it was added.

Main definitions:

* `Sync.TransientFailure` — the three snapshots;
* `Sync.driftsAfterFailure`, `Sync.driftsDirectly` — what is told with the failure and without it;
* `Sync.FailureInvisible` — **the same is told**.

Main results:

* `Sync.failure_invisible_iff` — **exactly when the failure cannot be seen**;
* `Sync.failure_of_new_section_visible` — a new section that fails once.
-/

import WiseLabz.Sync.Persist

set_option relaxedAutoImplicit false
set_option autoImplicit false

namespace WiseLabz.Sync

open Lib

variable {ι : Type}

/-- A stored snapshot `O` without errors, a later one `R` without errors, and `F` with the titles of
`R`, in which some sections failed and the others are those of `R`. -/
structure TransientFailure (js : InventoryJson ι) (O R F : ServiceSnapshot ι) : Prop where
  stored : O.stored js = O
  healthyBefore : ∀ s ∈ O.sections, s.error = []
  distinctBefore : KeyNodup SnapshotSection.title O.sections
  healthy : ∀ s ∈ R.sections, s.error = []
  distinct : KeyNodup SnapshotSection.title R.sections
  /-- The titles are valid UTF-8. -/
  titled : ∀ s ∈ R.sections, jsonText s.title = s.title
  titles : (F.sections.map SnapshotSection.title).Perm (R.sections.map SnapshotSection.title)
  rest : ∀ s ∈ F.sections, s.error = [] → s ∈ R.sections
  failed : ∃ s ∈ F.sections, s.error ≠ []

/-- What the syncs of `F` and then of `R` tell. -/
def driftsAfterFailure (js : InventoryJson ι) (connectorID : Bytes) (st : SyncStore ι)
    (F R : ServiceSnapshot ι) (t₁ t₂ : ℕ) : Option (List Drift) := do
  let (c₁, st₁) ← persistSyncSnapshot js connectorID t₁ false st F
  let (c₂, _) ← persistSyncSnapshot js connectorID t₂ false st₁ R
  some ((c₁ ++ c₂).map ChangeRecord.drift)

/-- What the sync of `R` alone tells. -/
def driftsDirectly (js : InventoryJson ι) (connectorID : Bytes) (st : SyncStore ι)
    (R : ServiceSnapshot ι) (t : ℕ) : Option (List Drift) := do
  let (c, _) ← persistSyncSnapshot js connectorID t false st R
  some (c.map ChangeRecord.drift)

/-- **The failure cannot be seen**: all syncs succeed, and the same is told with it and without. -/
def FailureInvisible (js : InventoryJson ι) (connectorID : Bytes) (st : SyncStore ι)
    (F R : ServiceSnapshot ι) (t₁ t₂ : ℕ) : Prop :=
  ∃ vs ws, driftsAfterFailure js connectorID st F R t₁ t₂ = some vs ∧
    driftsDirectly js connectorID st R t₂ = some ws ∧ vs.Perm ws

/-- The drifts of two snapshots. -/
def drifts (prev curr : ServiceSnapshot ι) : List Drift := (compare prev curr).map DiffResult.drift

theorem mem_drifts {prev curr : ServiceSnapshot ι} {v : Drift} : v ∈ drifts prev curr ↔
    sectionDrift v.title (sectionAt prev v.title) (sectionAt curr v.title) = some v :=
  mem_compare

theorem drifts_titles_nodup (prev curr : ServiceSnapshot ι) :
    ((drifts prev curr).map Drift.title).Nodup := by
  rw [drifts, List.map_map]
  exact compare_titles_nodup

theorem drift_unique {prev curr : ServiceSnapshot ι} {v w : Drift} (hv : v ∈ drifts prev curr)
    (hw : w ∈ drifts prev curr) (h : v.title = w.title) : v = w :=
  List.inj_on_of_nodup_map (drifts_titles_nodup prev curr) hv hw h

/-! ### The sections of the stored snapshot -/

section Sections

variable {js : InventoryJson ι} {O R F : ServiceSnapshot ι}

/-- The section that is stored of a section of `F`. -/
def keptSection (O : ServiceSnapshot ι) (s : SnapshotSection) : SnapshotSection :=
  (preserveSection O s).stored

theorem preserveSection_title (s : SnapshotSection) : (preserveSection O s).title = s.title := by
  unfold preserveSection
  split <;> rfl

theorem preserveSection_error (s : SnapshotSection) : (preserveSection O s).error = s.error := by
  unfold preserveSection
  split <;> rfl

namespace TransientFailure

variable (h : TransientFailure js O R F)

include h

theorem distinctFailed : KeyNodup SnapshotSection.title F.sections :=
  h.titles.nodup_iff.2 h.distinct

/-- The section of `R` under the title of one of `F`. -/
theorem exists_healthy {f : SnapshotSection} (hf : f ∈ F.sections) :
    ∃ r ∈ R.sections, r.title = f.title :=
  List.mem_map.1 (h.titles.mem_iff.1 (List.mem_map_of_mem hf))

theorem titledFailed {f : SnapshotSection} (hf : f ∈ F.sections) : jsonText f.title = f.title := by
  obtain ⟨r, hr, heq⟩ := h.exists_healthy hf
  rw [← heq]
  exact h.titled r hr

theorem exists_failed {r : SnapshotSection} (hr : r ∈ R.sections) :
    ∃ f ∈ F.sections, f.title = r.title :=
  List.mem_map.1 (h.titles.mem_iff.2 (List.mem_map_of_mem hr))

theorem distinctPreserved :
    KeyNodup SnapshotSection.title (preserveFailedSections O F).sections := by
  have htitles : (F.sections.map (preserveSection O)).map SnapshotSection.title =
      F.sections.map SnapshotSection.title := by
    rw [List.map_map]
    exact List.map_congr_left fun s _ => preserveSection_title s
  exact (congrArg List.Nodup htitles).mpr h.distinctFailed

theorem kept_title {f : SnapshotSection} (hf : f ∈ F.sections) :
    (keptSection O f).title = f.title := by
  rw [keptSection, SnapshotSection.stored, preserveSection_title, h.titledFailed hf]

theorem distinctKept :
    KeyNodup SnapshotSection.title ((preserveFailedSections O F).stored js).sections := by
  have htitles : ((F.sections.map (preserveSection O)).map SnapshotSection.stored).map
      SnapshotSection.title = F.sections.map SnapshotSection.title := by
    rw [List.map_map, List.map_map]
    exact List.map_congr_left fun s hs => h.kept_title hs
  exact (congrArg List.Nodup htitles).mpr h.distinctFailed

theorem sectionAt_preserved {f : SnapshotSection} (hf : f ∈ F.sections) :
    sectionAt (preserveFailedSections O F) f.title = some (preserveSection O f) :=
  (sectionAt_eq_some h.distinctPreserved).2 ⟨List.mem_map_of_mem hf, preserveSection_title f⟩

theorem sectionAt_kept {f : SnapshotSection} (hf : f ∈ F.sections) :
    sectionAt ((preserveFailedSections O F).stored js) f.title = some (keptSection O f) :=
  (sectionAt_eq_some h.distinctKept).2
    ⟨List.mem_map_of_mem (List.mem_map_of_mem hf), h.kept_title hf⟩

/-- A title that `R` lacks is missing in what is fetched and stored in between. -/
theorem sectionAt_none {t : Bytes} (ht : sectionAt R t = none) :
    sectionAt (preserveFailedSections O F) t = none ∧
      sectionAt ((preserveFailedSections O F).stored js) t = none ∧ sectionAt F t = none := by
  have hno : ∀ f ∈ F.sections, f.title ≠ t := by
    intro f hf heq
    obtain ⟨r, hr, hrf⟩ := h.exists_healthy hf
    exact (sectionAt_eq_none h.distinct).1 ht r hr (hrf.trans heq)
  refine ⟨(sectionAt_eq_none h.distinctPreserved).2 ?_, (sectionAt_eq_none h.distinctKept).2 ?_,
    (sectionAt_eq_none h.distinctFailed).2 hno⟩
  · intro s hs
    obtain ⟨f, hf, rfl⟩ := List.mem_map.1 hs
    rw [preserveSection_title]
    exact hno f hf
  · intro s hs
    obtain ⟨s', hs', rfl⟩ := List.mem_map.1 hs
    obtain ⟨f, hf, rfl⟩ := List.mem_map.1 hs'
    rw [show (preserveSection O f).stored.title = f.title from h.kept_title hf]
    exact hno f hf

/-- The contents of the first snapshot are read back as they are. -/
theorem content_stored {o : SnapshotSection} (ho : o ∈ O.sections) :
    jsonText o.content = o.content := by
  have hsections : O.sections.map SnapshotSection.stored = O.sections :=
    congrArg ServiceSnapshot.sections h.stored
  exact congrArg SnapshotSection.content
    (List.map_eq_map_iff.1 (hsections.trans (List.map_id _).symm) o ho)

/-! ### The difference of a section, in two steps and in one -/

/-- A healthy section of `F` is the one of `R`. -/
theorem sectionAt_healthy {f : SnapshotSection} (hf : f ∈ F.sections) (hok : f.error = []) :
    sectionAt R f.title = some f ∧ preserveSection O f = f := by
  refine ⟨sectionAt_of_mem h.distinct (h.rest f hf hok), ?_⟩
  rw [preserveSection, if_neg (by simp [hok])]

/-- The first sync tells of a failed section nothing. -/
theorem first_failed {f : SnapshotSection} (hf : f ∈ F.sections) (hfail : f.error ≠ []) :
    sectionDrift f.title (sectionAt O f.title)
      (sectionAt (preserveFailedSections O F) f.title) = none := by
  have herror : (preserveSection O f).error ≠ [] := by rwa [preserveSection_error]
  rw [h.sectionAt_preserved hf]
  cases ho : sectionAt O f.title with
  | none => simp [sectionDrift, herror]
  | some o => simp [sectionDrift, herror]

/-- What the first sync tells of a fetch does not depend on what failed sections keep. -/
theorem mem_drifts_preserved {v : Drift} :
    v ∈ drifts O (preserveFailedSections O F) ↔ v ∈ drifts O F := by
  rw [mem_drifts, mem_drifts]
  cases hF : sectionAt F v.title with
  | none =>
      have hnone : sectionAt (preserveFailedSections O F) v.title = none := by
        rw [sectionAt_eq_none h.distinctPreserved]
        intro s hs
        obtain ⟨f, hf, rfl⟩ := List.mem_map.1 hs
        rw [preserveSection_title]
        exact (sectionAt_eq_none h.distinctFailed).1 hF f hf
      rw [hnone]
  | some f =>
      obtain ⟨hf, ht⟩ := (sectionAt_eq_some h.distinctFailed).1 hF
      by_cases hok : f.error = []
      · rw [← ht, h.sectionAt_preserved hf, (h.sectionAt_healthy hf hok).2]
      · rw [← ht, h.first_failed hf hok]
        cases ho : sectionAt O f.title with
        | none => simp [sectionDrift, hok]
        | some o => simp [sectionDrift, hok]

/-- **The first sync tells what the direct one tells**, of the sections that did not fail. -/
theorem mem_direct_of_first {v : Drift} (hv : v ∈ drifts O (preserveFailedSections O F)) :
    v ∈ drifts O R := by
  rw [mem_drifts] at hv ⊢
  cases hR : sectionAt R v.title with
  | none => rwa [(h.sectionAt_none hR).1] at hv
  | some r =>
      obtain ⟨hr, hrt⟩ := (sectionAt_eq_some h.distinct).1 hR
      obtain ⟨f, hf, hft⟩ := h.exists_failed hr
      rw [← hrt, ← hft] at hv hR
      by_cases hok : f.error = []
      · rw [h.sectionAt_preserved hf, (h.sectionAt_healthy hf hok).2] at hv
        rw [← hrt, ← hft, ← hv, ← hR, (h.sectionAt_healthy hf hok).1]
      · rw [h.first_failed hf hok] at hv
        exact absurd hv (by simp)

/-- The second sync finds a healthy section as it is stored, unless JSON changes it. -/
theorem second_healthy {f : SnapshotSection} (hf : f ∈ F.sections) (hok : f.error = []) :
    (∃ v, sectionDrift f.title (sectionAt ((preserveFailedSections O F).stored js) f.title)
      (sectionAt R f.title) = some v) ↔ jsonText f.content ≠ f.content := by
  rw [h.sectionAt_kept hf, (h.sectionAt_healthy hf hok).1, keptSection,
    (h.sectionAt_healthy hf hok).2]
  by_cases hkept : jsonText f.content = f.content
  · simp [sectionDrift, SnapshotSection.stored, hok, hkept]
  · simp [sectionDrift, SnapshotSection.stored, hok, hkept, Ne.symm hkept]

/-- **The second sync tells of a failed section what the direct one tells**, if it was stored. -/
theorem second_failed {f o : SnapshotSection} (hf : f ∈ F.sections) (hfail : f.error ≠ [])
    (ho : sectionAt O f.title = some o) :
    sectionDrift f.title (sectionAt ((preserveFailedSections O F).stored js) f.title)
        (sectionAt R f.title) =
      sectionDrift f.title (sectionAt O f.title) (sectionAt R f.title) := by
  obtain ⟨r, hr, hrt⟩ := h.exists_healthy hf
  have hR : sectionAt R f.title = some r := (sectionAt_eq_some h.distinct).2 ⟨hr, hrt⟩
  have hkept : (keptSection O f).content = jsonText o.content := by
    rw [keptSection, preserveSection, if_pos hfail, ho]
    rfl
  have hcontent : (keptSection O f).content = o.content :=
    hkept.trans (h.content_stored ((sectionAt_eq_some h.distinctBefore).1 ho).1)
  rw [h.sectionAt_kept hf, hR, ho]
  simp [sectionDrift, hcontent]

/-- Of a failed section that was not stored, the direct sync tells that it was added, the second
sync does not. -/
theorem new_failed {f : SnapshotSection} (hf : f ∈ F.sections) (ho : sectionAt O f.title = none) :
    (∃ v, sectionDrift f.title (sectionAt O f.title) (sectionAt R f.title) = some v ∧
      v.changeType = .added) ∧
    ∀ v, sectionDrift f.title (sectionAt ((preserveFailedSections O F).stored js) f.title)
      (sectionAt R f.title) = some v → v.changeType ≠ .added := by
  obtain ⟨r, hr, hrt⟩ := h.exists_healthy hf
  have hR : sectionAt R f.title = some r := (sectionAt_eq_some h.distinct).2 ⟨hr, hrt⟩
  rw [h.sectionAt_kept hf, hR, ho]
  constructor
  · exact ⟨⟨.added, f.title, .info, [], r.content⟩,
      by simp only [sectionDrift, if_pos (h.healthy r hr)], rfl⟩
  · intro v hv
    simp only [sectionDrift] at hv
    split at hv
    · rw [← Option.some.inj hv]
      simp
    · exact absurd hv (by simp)

end TransientFailure

end Sections

/-! ### The whole run -/

section Whole

variable {js : InventoryJson ι} {O R F : ServiceSnapshot ι} {connectorID : Bytes} {st : SyncStore ι}
  {t₁ t₂ : ℕ}

/-- The pattern ids that a sync counts as repeats. -/
def recentPatterns (st : SyncStore ι) (connectorID : Bytes) (t : ℕ) : List Bytes :=
  countRecentChangePatterns st.changes connectorID t

/-- The changes of the sync of `F`. -/
def firstChanges (connectorID : Bytes) (st : SyncStore ι) (O F : ServiceSnapshot ι) (t₁ : ℕ) :
    List ChangeRecord :=
  createSyncChanges connectorID t₁ (recentPatterns st connectorID t₁)
    (compare O (preserveFailedSections O F))

/-- The store after it. -/
def afterFirst (js : InventoryJson ι) (connectorID : Bytes) (st : SyncStore ι)
    (O F : ServiceSnapshot ι) (t₁ : ℕ) : SyncStore ι :=
  ⟨.snapshot ((preserveFailedSections O F).stored js),
    st.changes ++ firstChanges connectorID st O F t₁⟩

namespace TransientFailure

variable (h : TransientFailure js O R F)

include h

theorem persist_failed (hst : st.latest = .snapshot O) :
    persistSyncSnapshot js connectorID t₁ false st F =
      some (firstChanges connectorID st O F t₁, afterFirst js connectorID st O F t₁) := by
  obtain ⟨f, hf, hfail⟩ := h.failed
  have herror : snapshotError F = true := by
    rw [snapshotError, List.any_eq_true]
    exact ⟨f, hf, by simpa using hfail⟩
  have hnot : ¬ snapshotContentEqual js O (preserveFailedSections O F) := by
    intro hequal
    -- a section of `O` would have the error of the failed one
    have hsections := sections_eq_of_snapshotContentEqual h.stored hequal
    have hmem : preserveSection O f ∈ O.sections := hsections ▸ List.mem_map_of_mem hf
    exact hfail (preserveSection_error (O := O) f ▸ h.healthyBefore _ hmem)
  simp only [persistSyncSnapshot, hst, herror, if_true, if_neg hnot]
  rfl

theorem snapshotError_healthy : snapshotError R = false := by
  rw [snapshotError, List.any_eq_false]
  intro r hr
  simp [h.healthy r hr]

theorem persist_recovered :
    ∃ st', persistSyncSnapshot js connectorID t₂ false (afterFirst js connectorID st O F t₁) R =
      some (createSyncChanges connectorID t₂
        (recentPatterns (afterFirst js connectorID st O F t₁) connectorID t₂)
        (compare ((preserveFailedSections O F).stored js) R), st') := by
  refine persistSyncSnapshot_healthy rfl ?_ h.snapshotError_healthy
  intro hequal
  -- a section that is stored with its error is in no healthy snapshot
  obtain ⟨f, hf, hfail⟩ := h.failed
  have hmem : (jsonEncode (keptSection O f).title, jsonEncode (keptSection O f).content,
      jsonEncode (keptSection O f).error) ∈
      R.sections.map fun s => (jsonEncode s.title, jsonEncode s.content, jsonEncode s.error) := by
    rw [← hequal.2.2.1]
    exact List.mem_map.2
      ⟨_, List.mem_map_of_mem (List.mem_map_of_mem hf), rfl⟩
  obtain ⟨r, hr, heq⟩ := List.mem_map.1 hmem
  have herror : jsonEncode r.error = jsonEncode (jsonText f.error) := by
    rw [← preserveSection_error (O := O) f]
    exact (Prod.mk.inj (Prod.mk.inj heq).2).2
  have hlength := congrArg List.length herror
  rw [jsonEncode_length, jsonEncode_length, h.healthy r hr] at hlength
  exact absurd (jsonText_eq_nil_iff.1 (List.length_eq_zero_iff.1 hlength.symm)) hfail

theorem persist_direct (hst : st.latest = .snapshot O) :
    ∃ st', persistSyncSnapshot js connectorID t₂ false st R =
      some (createSyncChanges connectorID t₂ (recentPatterns st connectorID t₂) (compare O R),
        st') :=
  persistSyncSnapshot_healthy hst
    (fun hequal => sections_eq_of_snapshotContentEqual h.stored hequal) h.snapshotError_healthy

/-- **What has to be compared**: the changes of the two syncs, and those of the direct one. -/
theorem failureInvisible_iff_perm (hst : st.latest = .snapshot O) :
    FailureInvisible js connectorID st F R t₁ t₂ ↔
      ((firstChanges connectorID st O F t₁).map ChangeRecord.drift ++
        (createSyncChanges connectorID t₂
          (recentPatterns (afterFirst js connectorID st O F t₁) connectorID t₂)
          (compare ((preserveFailedSections O F).stored js) R)).map ChangeRecord.drift).Perm
      ((createSyncChanges connectorID t₂ (recentPatterns st connectorID t₂)
        (compare O R)).map ChangeRecord.drift) := by
  obtain ⟨st₂, hsecond⟩ : ∃ st', persistSyncSnapshot js connectorID t₂ false
      (afterFirst js connectorID st O F t₁) R = some (_, st') := h.persist_recovered
  obtain ⟨st', hdirect⟩ : ∃ st', persistSyncSnapshot js connectorID t₂ false st R =
      some (_, st') := h.persist_direct hst
  simp [FailureInvisible, driftsAfterFailure, driftsDirectly, h.persist_failed hst, hsecond,
    hdirect]

end TransientFailure

end Whole

/-! ### When the failure cannot be seen -/

section Visible

variable {js : InventoryJson ι} {O R F : ServiceSnapshot ι} {connectorID : Bytes} {st : SyncStore ι}
  {t₁ t₂ : ℕ}

/-- The text whose digest is the pattern id of a difference. -/
def DiffResult.patternText (connectorID : Bytes) (d : DiffResult) : Bytes :=
  Sync.patternText connectorID d.changeType d.summary

/-- The digest tells the patterns of the differences of two snapshots apart. -/
def NoCollision (connectorID : Bytes) (prev curr : ServiceSnapshot ι) : Prop :=
  ∀ d ∈ compare prev curr, ∀ e ∈ compare prev curr,
    Sha1.sum (d.patternText connectorID) = Sha1.sum (e.patternText connectorID) →
      d.patternText connectorID = e.patternText connectorID

theorem patternText_inj {t t' : ChangeType} {title title' : Bytes}
    (h : patternText connectorID t (summaryOf t title) =
      patternText connectorID t' (summaryOf t' title')) : t = t' ∧ title = title' := by
  simp only [patternText, List.append_assoc, List.append_cancel_left_eq] at h
  cases t <;> cases t' <;> simp [ChangeType.text, summaryOf, bytes] at h ⊢ <;> exact h

/-- Without a collision, a pattern id tells the drift. -/
theorem drift_of_patternID (hcollision : NoCollision connectorID O R) {v w : Drift}
    (hv : v ∈ drifts O R) (hw : w ∈ drifts O R)
    (h : v.patternID connectorID = w.patternID connectorID) : v = w := by
  obtain ⟨d, hd, rfl⟩ := List.mem_map.1 hv
  obtain ⟨e, he, rfl⟩ := List.mem_map.1 hw
  have hpattern : ∀ d ∈ compare O R, d.patternText connectorID =
      patternText connectorID d.changeType (summaryOf d.changeType d.patch.title) := by
    intro d hd
    rw [DiffResult.patternText, summary_of_mem_compare hd]
  have htext := hcollision d hd e he (by
    rw [hpattern d hd, hpattern e he]
    exact hexEncode_inj h)
  rw [hpattern d hd, hpattern e he] at htext
  exact drift_unique hv hw (patternText_inj htext).2

/-- What the changes of two snapshots tell, if the direct sync tells the same differences. -/
theorem changes_drifts (hcollision : NoCollision connectorID O R) {prev curr : ServiceSnapshot ι}
    (hsub : ∀ v ∈ drifts prev curr, v ∈ drifts O R) (now : ℕ) (recent : List Bytes) :
    (createSyncChanges connectorID now recent (compare prev curr)).map ChangeRecord.drift =
      (drifts prev curr).map (Drift.escalated connectorID recent) := by
  refine createSyncChanges_drifts (fun d hd => summary_of_mem_compare hd) ?_ recent
  have hnodup : (drifts prev curr).Nodup := (drifts_titles_nodup prev curr).of_map
  have hpatterns : ((drifts prev curr).map (Drift.patternID connectorID)).Nodup :=
    hnodup.map_on fun v hv w hw heq => drift_of_patternID hcollision (hsub v hv) (hsub w hw) heq
  rwa [drifts, List.map_map] at hpatterns

/-- The type and the title of what is told. -/
def Drift.core (v : Drift) : ChangeType × Bytes := (v.changeType, v.title)

theorem changes_core (prev curr : ServiceSnapshot ι) (now : ℕ) (recent : List Bytes) :
    ((createSyncChanges connectorID now recent (compare prev curr)).map ChangeRecord.drift).map
      Drift.core = (drifts prev curr).map Drift.core := by
  rw [List.map_map, drifts, List.map_map]
  exact createSyncChanges_map Drift.core (fun _ _ => rfl)
    (fun d hd => summary_of_mem_compare hd) recent

/-- Nothing that the first sync tells, below critical, begins or ceases to be a repeat before the
second. -/
def SameRepeats (connectorID : Bytes) (st : SyncStore ι) (O F : ServiceSnapshot ι) (t₁ t₂ : ℕ) :
    Prop :=
  ∀ v ∈ drifts O F, v.severity ≠ .critical →
    (v.patternID connectorID ∈ recentPatterns st connectorID t₁ ↔
      v.patternID connectorID ∈ recentPatterns st connectorID t₂)

/-- Every failed section was stored before. -/
def FailedStored (O F : ServiceSnapshot ι) : Prop :=
  ∀ f ∈ F.sections, f.error ≠ [] → ∃ o ∈ O.sections, o.title = f.title

/-- The contents that were observed are valid UTF-8. -/
def ObservedText (F : ServiceSnapshot ι) : Prop :=
  ∀ f ∈ F.sections, f.error = [] → jsonText f.content = f.content

namespace TransientFailure

variable (h : TransientFailure js O R F)

include h

theorem first_drifts (hcollision : NoCollision connectorID O R) :
    (firstChanges connectorID st O F t₁).map ChangeRecord.drift =
      (drifts O (preserveFailedSections O F)).map
        (Drift.escalated connectorID (recentPatterns st connectorID t₁)) :=
  changes_drifts hcollision (fun _ hv => h.mem_direct_of_first hv) t₁ _

/-- The first sync tells something of every observed section that JSON changes. -/
theorem first_healthy {f : SnapshotSection} (hf : f ∈ F.sections) (hok : f.error = [])
    (hchanged : jsonText f.content ≠ f.content) :
    ∃ v ∈ drifts O (preserveFailedSections O F), v.title = f.title := by
  have hsome : ∃ v, sectionDrift f.title (sectionAt O f.title)
      (sectionAt (preserveFailedSections O F) f.title) = some v := by
    rw [h.sectionAt_preserved hf, (h.sectionAt_healthy hf hok).2]
    cases ho : sectionAt O f.title with
    | none => exact ⟨_, by simp only [sectionDrift, if_pos hok]; rfl⟩
    | some o =>
        have hne : f.content ≠ o.content := by
          intro heq
          rw [heq] at hchanged
          exact hchanged (h.content_stored ((sectionAt_eq_some h.distinctBefore).1 ho).1)
        exact ⟨_, by simp only [sectionDrift, if_pos (And.intro hok hne)]; rfl⟩
  obtain ⟨v, hv⟩ := hsome
  have ht := sectionDrift_title hv
  exact ⟨v, mem_drifts.2 (ht ▸ hv), ht⟩

/-- **If all failed sections were stored and JSON keeps the others**, the two syncs tell together
the differences that the direct one tells. -/
theorem drifts_perm (hstored : FailedStored O F) (htext : ObservedText F) :
    (drifts O (preserveFailedSections O F) ++
      drifts ((preserveFailedSections O F).stored js) R).Perm (drifts O R) := by
  -- the title of a difference of the second sync is that of a failed section
  have hsecond : ∀ v ∈ drifts ((preserveFailedSections O F).stored js) R,
      ∃ f ∈ F.sections, f.title = v.title ∧ f.error ≠ [] := by
    intro v hv
    rw [mem_drifts] at hv
    cases hR : sectionAt R v.title with
    | none =>
        rw [hR, (h.sectionAt_none hR).2.1] at hv
        exact absurd hv (by simp [sectionDrift])
    | some r =>
        obtain ⟨hr, hrt⟩ := (sectionAt_eq_some h.distinct).1 hR
        obtain ⟨f, hf, hft⟩ := h.exists_failed hr
        refine ⟨f, hf, hft.trans hrt, fun hok => ?_⟩
        rw [← hrt, ← hft] at hv
        exact (h.second_healthy hf hok).1 ⟨v, hv⟩ (htext f hf hok)
  have hfirst : ∀ v ∈ drifts O (preserveFailedSections O F), ∀ f ∈ F.sections,
      f.title = v.title → f.error = [] := by
    intro v hv f hf ht
    by_contra hfail
    rw [mem_drifts, ← ht, h.first_failed hf hfail] at hv
    exact absurd hv (by simp)
  have hsame : ∀ f ∈ F.sections, f.error ≠ [] →
      sectionDrift f.title (sectionAt ((preserveFailedSections O F).stored js) f.title)
        (sectionAt R f.title) =
      sectionDrift f.title (sectionAt O f.title) (sectionAt R f.title) := by
    intro f hf hfail
    obtain ⟨o, ho, hot⟩ := hstored f hf hfail
    exact h.second_failed hf hfail ((sectionAt_eq_some h.distinctBefore).2 ⟨ho, hot⟩)
  refine (List.perm_ext_iff_of_nodup ?_ (drifts_titles_nodup O R).of_map).2 fun v => ?_
  · refine List.Nodup.append (drifts_titles_nodup _ _).of_map (drifts_titles_nodup _ _).of_map ?_
    intro v hv hv'
    obtain ⟨f, hf, ht, hfail⟩ := hsecond v hv'
    exact hfail (hfirst v hv f hf ht)
  · rw [List.mem_append]
    constructor
    · rintro (hv | hv)
      · exact h.mem_direct_of_first hv
      · obtain ⟨f, hf, ht, hfail⟩ := hsecond v hv
        rw [mem_drifts, ← ht] at hv ⊢
        rw [← hsame f hf hfail, hv]
    · intro hv
      by_cases hfailed : ∃ f ∈ F.sections, f.title = v.title ∧ f.error ≠ []
      · obtain ⟨f, hf, ht, hfail⟩ := hfailed
        right
        rw [mem_drifts, ← ht] at hv ⊢
        rw [hsame f hf hfail, hv]
      · left
        rw [mem_drifts] at hv ⊢
        cases hR : sectionAt R v.title with
        | none => rwa [(h.sectionAt_none hR).1, ← hR]
        | some r =>
            obtain ⟨hr, hrt⟩ := (sectionAt_eq_some h.distinct).1 hR
            obtain ⟨f, hf, hft⟩ := h.exists_failed hr
            have hok : f.error = [] := by
              by_contra hfail
              exact hfailed ⟨f, hf, hft.trans hrt, hfail⟩
            rw [← hrt, ← hft] at hv ⊢
            rwa [h.sectionAt_preserved hf, (h.sectionAt_healthy hf hok).2,
              ← (h.sectionAt_healthy hf hok).1]

/-- What the changes of both syncs tell, if the failure is recovered from. -/
theorem recovered_perm (hcollision : NoCollision connectorID O R) (hstored : FailedStored O F)
    (htext : ObservedText F) (hrepeats : SameRepeats connectorID st O F t₁ t₂) :
    ((firstChanges connectorID st O F t₁).map ChangeRecord.drift ++
      (createSyncChanges connectorID t₂
        (recentPatterns (afterFirst js connectorID st O F t₁) connectorID t₂)
        (compare ((preserveFailedSections O F).stored js) R)).map ChangeRecord.drift).Perm
    ((createSyncChanges connectorID t₂ (recentPatterns st connectorID t₂)
      (compare O R)).map ChangeRecord.drift) := by
  have hperm := h.drifts_perm hstored htext
  have hsecond : ∀ v ∈ drifts ((preserveFailedSections O F).stored js) R, v ∈ drifts O R :=
    fun v hv => hperm.mem_iff.1 (List.mem_append_right _ hv)
  have hnodup : (drifts O (preserveFailedSections O F) ++
      drifts ((preserveFailedSections O F).stored js) R).Nodup :=
    hperm.nodup_iff.2 (drifts_titles_nodup O R).of_map
  -- the changes of the first sync are no repeats for those of the second
  have hrecent : ∀ v ∈ drifts ((preserveFailedSections O F).stored js) R,
      v.escalated connectorID (recentPatterns (afterFirst js connectorID st O F t₁) connectorID t₂) =
        v.escalated connectorID (recentPatterns st connectorID t₂) := by
    intro v hv
    refine Drift.escalated_congr ?_
    simp only [recentPatterns, afterFirst, countRecentChangePatterns, List.filter_append,
      List.map_append, List.mem_append]
    refine or_iff_left fun hmem => ?_
    obtain ⟨c, hc, hpattern⟩ := List.mem_map.1 (List.mem_of_mem_filter hmem)
    have hids : v.patternID connectorID ∈
        (drifts O (preserveFailedSections O F)).map (Drift.patternID connectorID) := by
      have hpatterns : (firstChanges connectorID st O F t₁).map ChangeRecord.patternID =
          (compare O (preserveFailedSections O F)).map fun d => d.drift.patternID connectorID :=
        createSyncChanges_patternIDs (fun d hd => summary_of_mem_compare hd) _
      rw [drifts, List.map_map, ← hpattern]
      exact hpatterns ▸ List.mem_map_of_mem (List.mem_of_mem_filter hc)
    obtain ⟨w, hw, heq⟩ := List.mem_map.1 hids
    have hwv := drift_of_patternID hcollision (h.mem_direct_of_first hw) (hsecond v hv) heq
    exact (List.nodup_append.1 hnodup).2.2 w hw v hv hwv
  have hfirst : ∀ v ∈ drifts O (preserveFailedSections O F),
      v.escalated connectorID (recentPatterns st connectorID t₁) =
        v.escalated connectorID (recentPatterns st connectorID t₂) :=
    fun v hv => Drift.escalated_eq_iff.2 (hrepeats v (h.mem_drifts_preserved.1 hv))
  rw [h.first_drifts hcollision, changes_drifts hcollision hsecond,
    changes_drifts hcollision fun v hv => hv, List.map_congr_left hfirst,
    List.map_congr_left hrecent, ← List.map_append]
  exact hperm.map _

/-- What follows if both tell the same. -/
theorem recovered_of_perm (hcollision : NoCollision connectorID O R)
    (hperm : ((firstChanges connectorID st O F t₁).map ChangeRecord.drift ++
      (createSyncChanges connectorID t₂
        (recentPatterns (afterFirst js connectorID st O F t₁) connectorID t₂)
        (compare ((preserveFailedSections O F).stored js) R)).map ChangeRecord.drift).Perm
      ((createSyncChanges connectorID t₂ (recentPatterns st connectorID t₂)
        (compare O R)).map ChangeRecord.drift)) :
    FailedStored O F ∧ ObservedText F ∧ SameRepeats connectorID st O F t₁ t₂ := by
  have hcore := hperm.map Drift.core
  rw [List.map_append, firstChanges, changes_core, changes_core, changes_core] at hcore
  refine ⟨fun f hf hfail => ?_, fun f hf hok => ?_, fun v hv => ?_⟩
  · -- a new section that failed would be told as added by the direct sync only
    by_contra hnew
    have ho : sectionAt O f.title = none := by
      rw [sectionAt_eq_none h.distinctBefore]
      exact fun o ho hot => hnew ⟨o, ho, hot⟩
    obtain ⟨⟨v, hv, hadded⟩, hsecond⟩ := h.new_failed hf ho
    have ht := sectionDrift_title hv
    have hmem : v.core ∈ (drifts O R).map Drift.core :=
      List.mem_map_of_mem (mem_drifts.2 (ht ▸ hv))
    rcases List.mem_append.1 (hcore.mem_iff.2 hmem) with hmem | hmem
    · obtain ⟨w, hw, heq⟩ := List.mem_map.1 hmem
      have hwt : w.title = f.title := (Prod.mk.inj heq).2.trans ht
      rw [mem_drifts, hwt, h.first_failed hf hfail] at hw
      exact absurd hw (by simp)
    · obtain ⟨w, hw, heq⟩ := List.mem_map.1 hmem
      have hwt : w.title = f.title := (Prod.mk.inj heq).2.trans ht
      rw [mem_drifts, hwt] at hw
      exact hsecond w hw ((Prod.mk.inj heq).1.trans hadded)
  · -- a section that JSON changes would be told by both syncs
    by_contra hchanged
    obtain ⟨v, hv, hvt⟩ := h.first_healthy hf hok hchanged
    obtain ⟨w, hw⟩ := (h.second_healthy hf hok).2 hchanged
    have hwt := sectionDrift_title hw
    have htitles := hcore.map Prod.snd
    rw [List.map_append] at htitles
    simp only [List.map_map] at htitles
    have hnodup := htitles.nodup_iff.2 (drifts_titles_nodup O R)
    refine (List.nodup_append.1 hnodup).2.2 v.title (List.mem_map_of_mem hv) w.title
      (List.mem_map_of_mem (mem_drifts.2 (hwt ▸ hw))) (hvt.trans hwt.symm)
  · -- a difference that the first sync tells is told with one severity
    have hfirst := h.mem_drifts_preserved.2 hv
    rw [← Drift.escalated_eq_iff]
    have hmem : v.escalated connectorID (recentPatterns st connectorID t₁) ∈
        (firstChanges connectorID st O F t₁).map ChangeRecord.drift := by
      rw [h.first_drifts hcollision]
      exact List.mem_map_of_mem hfirst
    have hdirect := hperm.mem_iff.1 (List.mem_append_left _ hmem)
    rw [changes_drifts hcollision fun v hv => hv] at hdirect
    obtain ⟨w, hw, heq⟩ := List.mem_map.1 hdirect
    have htitle := congrArg Drift.title heq
    have hwv : w = v := drift_unique hw (h.mem_direct_of_first hfirst) htitle
    rw [← heq, hwv]

end TransientFailure

/-- **The failure cannot be seen exactly if** every failed section was stored before, the contents
that were observed are valid UTF-8, and nothing that the first sync tells begins or ceases to be a
repeat. -/
theorem failure_invisible_iff (h : TransientFailure js O R F) (hst : st.latest = .snapshot O)
    (hcollision : NoCollision connectorID O R) :
    FailureInvisible js connectorID st F R t₁ t₂ ↔
      FailedStored O F ∧ ObservedText F ∧ SameRepeats connectorID st O F t₁ t₂ := by
  rw [h.failureInvisible_iff_perm hst]
  constructor
  · exact h.recovered_of_perm hcollision
  · rintro ⟨hstored, htext, hrepeats⟩
    exact h.recovered_perm hcollision hstored htext hrepeats

end Visible

/-! ### Two recoveries -/

/-- A snapshot of sections, with an inventory that says nothing. -/
def sampleSnapshot (sections : List SnapshotSection) : ServiceSnapshot Unit :=
  ⟨bytes "lab", bytes "router", sections, [], ()⟩

def sampleJson : InventoryJson Unit := ⟨fun _ => [], fun _ => ()⟩

def sampleBefore : ServiceSnapshot Unit := sampleSnapshot
  [⟨bytes "Rules", bytes "rule-1", []⟩, ⟨bytes "System", bytes "before", []⟩]

def sampleAfter : ServiceSnapshot Unit := sampleSnapshot
  [⟨bytes "Rules", bytes "rule-2", []⟩, ⟨bytes "System", bytes "after", []⟩]

/-- The rules cannot be observed. -/
def sampleFailed : ServiceSnapshot Unit := sampleSnapshot
  [⟨bytes "Rules", bytes "unavailable", bytes "timeout"⟩, ⟨bytes "System", bytes "after", []⟩]

instance (O F : ServiceSnapshot ι) : Decidable (FailedStored O F) :=
  inferInstanceAs (Decidable (∀ _ ∈ _, _ → _))

instance (F : ServiceSnapshot ι) : Decidable (ObservedText F) :=
  inferInstanceAs (Decidable (∀ _ ∈ _, _ → _))

instance (connectorID : Bytes) (st : SyncStore ι) (O F : ServiceSnapshot ι) (t₁ t₂ : ℕ) :
    Decidable (SameRepeats connectorID st O F t₁ t₂) :=
  inferInstanceAs (Decidable (∀ _ ∈ _, _ → _))

instance (connectorID : Bytes) (O R : ServiceSnapshot ι) : Decidable (NoCollision connectorID O R) :=
  inferInstanceAs (Decidable (∀ _ ∈ _, ∀ _ ∈ _, _ → _))

theorem sampleFailed_transient :
    TransientFailure sampleJson sampleBefore sampleAfter sampleFailed where
  stored := by decide
  healthyBefore := by decide
  distinctBefore := by decide
  healthy := by decide
  distinct := by decide
  titled := by decide
  titles := by decide
  rest := by decide
  failed := by decide

/-- A stored section that fails once is not seen. -/
theorem failure_invisible_sample :
    FailureInvisible sampleJson (bytes "c1") ⟨.snapshot sampleBefore, []⟩ sampleFailed sampleAfter
      100 200 :=
  (failure_invisible_iff sampleFailed_transient rfl (by decide +kernel)).2
    ⟨by decide, by decide, fun _ _ _ => Iff.rfl⟩

/-- The rules are new. -/
def sampleBeforeRules : ServiceSnapshot Unit := sampleSnapshot
  [⟨bytes "System", bytes "before", []⟩]

/-- **A new section that fails once is seen**: it is told as modified, not as added. -/
theorem failure_of_new_section_visible :
    TransientFailure sampleJson sampleBeforeRules sampleAfter sampleFailed ∧
    driftsAfterFailure sampleJson (bytes "c1") ⟨.snapshot sampleBeforeRules, []⟩ sampleFailed
      sampleAfter 100 100 = some [
        ⟨.modified, bytes "System", .info, bytes "before", bytes "after"⟩,
        ⟨.modified, bytes "Rules", .info, [], bytes "rule-2"⟩] ∧
    driftsDirectly sampleJson (bytes "c1") ⟨.snapshot sampleBeforeRules, []⟩ sampleAfter 100 = some [
        ⟨.added, bytes "Rules", .info, [], bytes "rule-2"⟩,
        ⟨.modified, bytes "System", .info, bytes "before", bytes "after"⟩] ∧
    ¬ FailureInvisible sampleJson (bytes "c1") ⟨.snapshot sampleBeforeRules, []⟩ sampleFailed
      sampleAfter 100 100 := by
  have hafter : driftsAfterFailure sampleJson (bytes "c1") ⟨.snapshot sampleBeforeRules, []⟩
      sampleFailed sampleAfter 100 100 = some [
        ⟨.modified, bytes "System", .info, bytes "before", bytes "after"⟩,
        ⟨.modified, bytes "Rules", .info, [], bytes "rule-2"⟩] := by decide +kernel
  have hdirect : driftsDirectly sampleJson (bytes "c1") ⟨.snapshot sampleBeforeRules, []⟩ sampleAfter
      100 = some [
        ⟨.added, bytes "Rules", .info, [], bytes "rule-2"⟩,
        ⟨.modified, bytes "System", .info, bytes "before", bytes "after"⟩] := by decide +kernel
  refine ⟨⟨by decide, by decide, by decide, by decide, by decide, by decide, by decide, by decide,
    by decide⟩, hafter, hdirect, ?_⟩
  rintro ⟨vs, ws, hvs, hws, hperm⟩
  rw [hafter] at hvs
  rw [hdirect] at hws
  rw [← Option.some.inj hvs, ← Option.some.inj hws] at hperm
  exact absurd hperm (by decide)

end WiseLabz.Sync
