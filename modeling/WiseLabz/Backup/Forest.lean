/-
**The docs of a store after an import.**

The checks of a bundle look at the bundle alone, while a created doc gets the row of the store that
has its parent's id.  Where the chain of a new doc meets the store, that row must be active, of the
doc's service and high enough; then, and only then, the docs form a forest again.

Main definitions:

* `Backup.DocForest` — the active docs lie under active docs of their service, at most five deep;
* `Backup.attachPoint` — where the chain of a doc of the bundle meets the store;
* `Backup.Attached` — **every new doc meets the store at a row that may be above it**.

Main results:

* `Backup.chain_spec` — the chain of a new doc, as the import leaves it;
* `Backup.importInto_forest_iff` — **when the docs form a forest after an import**;
* `Backup.import_under_trash` — a doc is created under one that the store has in the trash.
-/

import WiseLabz.Lib.Forest
import WiseLabz.Backup.Import

set_option relaxedAutoImplicit false
set_option autoImplicit false

namespace WiseLabz.Backup

open Lib
open Store (DocRecord)

/-! ### Forests of docs -/

/-- The parent of the row with an id. -/
def parentIn (docs : List DocRecord) (id : Bytes) : Option Bytes :=
  match docs.find? fun d => d.id = id with
  | none => none
  | some d => if d.parentId = [] then none else some d.parentId

/-- **The docs form a forest**: the parent of an active doc is an active doc of the same service,
every chain of parents ends, so that there is no cycle, and that of an active doc after five docs at
most.  Ids are a key and parents a foreign key of the table. -/
structure DocForest (docs : List DocRecord) : Prop where
  unique : (docs.map DocRecord.id).Nodup
  parent_exists : ∀ d ∈ docs, d.parentId ≠ [] → ∃ p ∈ docs, p.id = d.parentId
  parent : ∀ d ∈ docs, d.deletedAt = none → d.parentId ≠ [] →
    ∃ p ∈ docs, p.id = d.parentId ∧ p.deletedAt = none ∧ p.serviceId = d.serviceId
  rooted : ∀ d ∈ docs, ∃ n, Depth (parentIn docs) d.id n
  depth : ∀ d ∈ docs, d.deletedAt = none → ∃ n ≤ 5, Depth (parentIn docs) d.id n

theorem DocForest.acyclic {docs : List DocRecord} (h : DocForest docs) {d : DocRecord}
    (hd : d ∈ docs) (k : ℕ) : ¬ Below (parentIn docs) d.id d.id (k + 1) := by
  obtain ⟨n, hn⟩ := h.rooted d hd
  exact hn.not_below

/-- Where the chain of a doc of a bundle meets the store, at most so many parents up: the number of
parents, and the row. -/
def attachPoint (docs bundle : List DocRecord) : ℕ → DocRecord → Option (ℕ × DocRecord)
  | 0, _ => none
  | n + 1, d =>
      if d.parentId = [] then none
      else
        match docs.find? fun p => p.id = d.parentId with
        | some p => some (1, p)
        | none =>
            match docByID bundle d.parentId with
            | none => none
            | some p => (attachPoint docs bundle n p).map fun r => (r.1 + 1, r.2)

/-- **Every new active doc of the bundle meets the store, if at all, at an active doc of its service
that is high enough for it.** -/
def Attached (s : Tables) (rs : List (Entry DocRecord)) : Prop :=
  ∀ e ∈ newDocs s rs, e.record.id ≠ [] → e.record.deletedAt = none → ∀ k p,
    attachPoint s.docs (rs.map Entry.record) 4 e.record = some (k, p) →
      p.deletedAt = none ∧ p.serviceId = e.record.serviceId ∧
        ∃ n, Depth (parentIn s.docs) p.id n ∧ n + k ≤ 5

/-! ### Rows under their ids -/

section Rows

variable {docs : List DocRecord}

theorem find_of_mem (hunique : (docs.map DocRecord.id).Nodup) {d : DocRecord} (hd : d ∈ docs) :
    docs.find? (fun d' => d'.id = d.id) = some d := by
  cases h : docs.find? (fun d' => d'.id = d.id) with
  | none =>
      have hnone := List.find?_eq_none.1 h d hd
      simp at hnone
  | some d' =>
      have hid : d'.id = d.id := by simpa using List.find?_some h
      rw [List.inj_on_of_nodup_map hunique (List.mem_of_find?_eq_some h) hd hid]

theorem parentIn_of_mem (hunique : (docs.map DocRecord.id).Nodup) {d : DocRecord} (hd : d ∈ docs) :
    parentIn docs d.id = if d.parentId = [] then none else some d.parentId := by
  rw [parentIn, find_of_mem hunique hd]

/-- The ancestors of an active doc of a forest are active docs of its service. -/
theorem DocForest.ancestor (h : DocForest docs) {a x : Bytes} {k : ℕ}
    (hbelow : Below (parentIn docs) a x k) {d : DocRecord} (hd : d ∈ docs) (ha : d.id = a)
    (hactive : d.deletedAt = none) :
    ∃ p ∈ docs, p.id = x ∧ p.deletedAt = none ∧ p.serviceId = d.serviceId := by
  induction hbelow generalizing d with
  | refl a => exact ⟨d, hd, ha, hactive, rfl⟩
  | step hup _ ih =>
      rw [← ha, parentIn_of_mem h.unique hd] at hup
      split at hup
      · cases hup
      · next hne =>
          obtain rfl := Option.some.inj hup
          obtain ⟨p, hp, hid, hpactive, hservice⟩ := h.parent d hd hactive hne
          obtain ⟨q, hq, hqid, hqactive, hqservice⟩ := ih hp hid hpactive
          exact ⟨q, hq, hqid, hqactive, hqservice.trans hservice⟩

end Rows

/-! ### What is validated -/

theorem docByID_eq_some {docs : List DocRecord} {id : Bytes} {d : DocRecord}
    (h : docByID docs id = some d) : d ∈ docs ∧ d.id = id := by
  rw [docByID] at h
  exact ⟨List.mem_reverse.1 (List.mem_of_find?_eq_some h), by simpa using List.find?_some h⟩

theorem validateDocs_eq_ok {docs : List DocRecord} (h : validateDocs docs = .ok ()) :
    ∀ d ∈ docs, validateChain docs d 4 [d.id] d.parentId = .ok () := by
  rw [validateDocs] at h
  generalize hall : docs = all at h ⊢
  have hloop : ∀ todo : List DocRecord,
      todo.forM (fun d => validateChain all d 4 [d.id] d.parentId) = .ok () →
        ∀ d ∈ todo, validateChain all d 4 [d.id] d.parentId = .ok () := by
    intro todo
    induction todo with
    | nil => simp
    | cons d todo ih =>
        intro h
        have hcons : (validateChain all d 4 [d.id] d.parentId >>= fun _ =>
            todo.forM fun d => validateChain all d 4 [d.id] d.parentId) = .ok () := h
        obtain ⟨hd, htodo⟩ := check_bind_eq_ok.1 hcons
        simpa [hd] using ih htodo
  exact hloop all h

/-- A validated doc with a parent has one in the bundle, of its service and, if it is active,
active; and the walk goes on from there. -/
theorem validateChain_eq_ok {docs : List DocRecord} {d : DocRecord} {more : ℕ} {seen : List Bytes}
    {parentId : Bytes} (h : validateChain docs d more seen parentId = .ok ()) (hne : parentId ≠ []) :
    ∃ p more', docByID docs parentId = some p ∧ p.serviceId = d.serviceId ∧
      (d.deletedAt = none → p.deletedAt = none) ∧ more = more' + 1 ∧
        validateChain docs d more' (parentId :: seen) p.parentId = .ok () := by
  unfold validateChain at h
  rw [if_neg hne] at h
  cases hp : docByID docs parentId with
  | none =>
      rw [hp] at h
      cases h
  | some p =>
      rw [hp] at h
      dsimp only at h
      split at h
      · cases h
      · next hcheck =>
          rw [not_or, not_or, not_and, Decidable.not_not, Decidable.not_not] at hcheck
          cases more with
          | zero => cases h
          | succ more => exact ⟨p, more, rfl, hcheck.1, hcheck.2.2, rfl, h⟩

/-! ### After an import -/

section Import

variable {s : Tables} {rs : List (Entry DocRecord)} {docs : List DocRecord}

theorem placed_id {e : Entry DocRecord} (h : e.record.id ≠ []) : (placed e).id = e.record.id :=
  created_id h

theorem placed_parentId {e : Entry DocRecord} (h : e.record.id ≠ []) :
    (placed e).parentId = e.record.parentId := if_neg h

/-- A doc of the bundle is there afterwards, as a row of the store or as a new one. -/
theorem known_or_new {d : DocRecord} (hd : d ∈ rs.map Entry.record) :
    (∃ p ∈ s.docs, p.id = d.id ∧ s.docs.find? (fun p => p.id = d.id) = some p) ∨
      (s.docs.find? (fun p => p.id = d.id) = none ∧ ∃ e ∈ newDocs s rs, e.record = d) := by
  cases hfind : s.docs.find? (fun p => p.id = d.id) with
  | some p =>
      left
      exact ⟨p, List.mem_of_find?_eq_some hfind, by simpa using List.find?_some hfind, rfl⟩
  | none =>
      right
      obtain ⟨e, he, rfl⟩ := List.mem_map.1 hd
      refine ⟨rfl, e, mem_newDocs.2 ⟨he, ?_⟩, rfl⟩
      exact List.any_eq_false.2 (List.find?_eq_none.1 hfind)

variable (hdocs : docs = s.docs ++ (newDocs s rs).map placed)
  (hunique : (docs.map DocRecord.id).Nodup)

include hdocs

theorem placed_mem {e : Entry DocRecord} (he : e ∈ newDocs s rs) : placed e ∈ docs := by
  rw [hdocs]
  exact List.mem_append_right _ (List.mem_map_of_mem he)

theorem known_mem {d : DocRecord} (hd : d ∈ s.docs) : d ∈ docs := by
  rw [hdocs]
  exact List.mem_append_left _ hd

include hunique

/-- **The chain of a new doc, as the import leaves it**: it meets the store where the bundle says, or
it ends within the bundle. -/
theorem chain_spec {d : DocRecord} {e : Entry DocRecord} (he : e ∈ newDocs s rs)
    (hid : e.record.id ≠ []) {n : ℕ} {seen : List Bytes}
    (hvalid : validateChain (rs.map Entry.record) d n seen e.record.parentId = .ok ()) :
    match attachPoint s.docs (rs.map Entry.record) n e.record with
    | some (k, p) => p ∈ s.docs ∧ Below (parentIn docs) e.record.id p.id k
    | none => ∃ m ≤ n + 1, Depth (parentIn docs) e.record.id m := by
  have hup := parentIn_of_mem hunique (placed_mem hdocs he)
  rw [placed_id hid, placed_parentId hid] at hup
  induction n generalizing e seen with
  | zero =>
      by_cases hparent : e.record.parentId = []
      · exact ⟨1, le_rfl, .root (by rw [hup, if_pos hparent])⟩
      · obtain ⟨p, more, -, -, -, hmore, -⟩ := validateChain_eq_ok hvalid hparent
        cases hmore
  | succ n ih =>
      by_cases hparent : e.record.parentId = []
      · rw [attachPoint, if_pos hparent]
        exact ⟨1, Nat.le_add_left 1 _, .root (by rw [hup, if_pos hparent])⟩
      · rw [if_neg hparent] at hup
        obtain ⟨q, more, hq, -, -, hmore, hrest⟩ := validateChain_eq_ok hvalid hparent
        obtain rfl : n = more := Nat.succ.inj hmore
        obtain ⟨hqmem, hqid⟩ := docByID_eq_some hq
        rw [attachPoint, if_neg hparent]
        rcases known_or_new hqmem with ⟨p, hp, hpid, hfind⟩ | ⟨hfind, e', he', rfl⟩
        · rw [hqid] at hpid hfind
          rw [hfind]
          exact ⟨hp, .step hup (hpid ▸ .refl _)⟩
        · rw [hqid] at hfind
          rw [hfind, hq]
          have hid' : e'.record.id ≠ [] := hqid ▸ hparent
          have hup' := parentIn_of_mem hunique (placed_mem hdocs he')
          rw [placed_id hid', placed_parentId hid'] at hup'
          have hih := ih he' hid' hrest hup'
          dsimp only
          cases hattach : attachPoint s.docs (rs.map Entry.record) n e'.record with
          | none =>
              rw [hattach] at hih
              obtain ⟨m, hm, hdepth⟩ := hih
              exact ⟨m + 1, Nat.succ_le_succ hm, .child hup (hqid ▸ hdepth)⟩
          | some r =>
              rw [hattach] at hih
              exact ⟨hih.1, .step hup (hqid ▸ hih.2)⟩

/-- The docs of the store keep their depths. -/
theorem depth_of_known (hforest : DocForest s.docs) {d : DocRecord} (hd : d ∈ s.docs) {n : ℕ}
    (h : Depth (parentIn s.docs) d.id n) : Depth (parentIn docs) d.id n := by
  have hclosed : ∀ a b, (∃ p ∈ s.docs, p.id = a) → parentIn s.docs a = some b →
      ∃ p ∈ s.docs, p.id = b := by
    rintro a b ⟨p, hp, rfl⟩ hup
    rw [parentIn_of_mem hforest.unique hp] at hup
    split at hup
    · cases hup
    · next hne =>
        obtain rfl := Option.some.inj hup
        exact hforest.parent_exists p hp hne
  refine Depth.congr hclosed ?_ h ⟨d, hd, rfl⟩
  rintro a ⟨p, hp, rfl⟩
  rw [parentIn_of_mem hforest.unique hp, parentIn_of_mem hunique (known_mem hdocs hp)]

/-- New docs that meet the store at rows that may be above them leave a forest. -/
theorem Attached.forest (hforest : DocForest s.docs)
    (hvalid : validateDocs (rs.map Entry.record) = .ok ()) (h : Attached s rs) : DocForest docs := by
  have hrows : ∀ d ∈ docs, d ∈ s.docs ∨ ∃ e ∈ newDocs s rs, d = placed e := by
    intro d hd
    rw [hdocs] at hd
    rcases List.mem_append.1 hd with hd | hd
    · exact Or.inl hd
    · obtain ⟨e, he, rfl⟩ := List.mem_map.1 hd
      exact Or.inr ⟨e, he, rfl⟩
  have hchain : ∀ e ∈ newDocs s rs, validateChain (rs.map Entry.record) e.record 4 [e.record.id]
      e.record.parentId = .ok () :=
    fun e he => validateDocs_eq_ok hvalid _ (List.mem_map_of_mem (mem_newDocs.1 he).1)
  have hroot : ∀ e ∈ newDocs s rs, e.record.id = [] → Depth (parentIn docs) (placed e).id 1 := by
    intro e he hid
    refine .root ?_
    have hnone : (placed e).parentId = [] := if_pos hid
    rw [parentIn_of_mem hunique (placed_mem hdocs he), if_pos hnone]
  have hparent : ∀ e ∈ newDocs s rs, (placed e).parentId ≠ [] → ∃ p ∈ docs,
      p.id = (placed e).parentId ∧ (e.record.deletedAt = none →
        p.deletedAt = none ∧ p.serviceId = e.record.serviceId) := by
    intro e he hne
    have hid : e.record.id ≠ [] := fun hid => hne (if_pos hid)
    rw [placed_parentId hid] at hne ⊢
    obtain ⟨q, more, hq, hservice, hactive, hmore, -⟩ := validateChain_eq_ok (hchain e he) hne
    obtain ⟨hqmem, hqid⟩ := docByID_eq_some hq
    rcases known_or_new hqmem with ⟨p, hp, hpid, hfind⟩ | ⟨-, e', he', rfl⟩
    · refine ⟨p, known_mem hdocs hp, hpid.trans hqid, fun he' => ?_⟩
      have hattach : attachPoint s.docs (rs.map Entry.record) 4 e.record = some (1, p) := by
        rw [hqid] at hfind
        rw [attachPoint, if_neg hne, hfind]
      obtain ⟨hpactive, hpservice, -⟩ := h e he hid he' 1 p hattach
      exact ⟨hpactive, hpservice⟩
    · have hid' : e'.record.id ≠ [] := hqid ▸ hne
      exact ⟨placed e', placed_mem hdocs he', (placed_id hid').trans hqid,
        fun he => ⟨hactive he, hservice⟩⟩
  refine ⟨hunique, ?_, ?_, ?_, ?_⟩
  · intro d hd hne
    rcases hrows d hd with hd | ⟨e, he, rfl⟩
    · obtain ⟨p, hp, hid⟩ := hforest.parent_exists d hd hne
      exact ⟨p, known_mem hdocs hp, hid⟩
    · obtain ⟨p, hp, hid, -⟩ := hparent e he hne
      exact ⟨p, hp, hid⟩
  · intro d hd hactive hne
    rcases hrows d hd with hd | ⟨e, he, rfl⟩
    · obtain ⟨p, hp, hrest⟩ := hforest.parent d hd hactive hne
      exact ⟨p, known_mem hdocs hp, hrest⟩
    · obtain ⟨p, hp, hid, hrest⟩ := hparent e he hne
      exact ⟨p, hp, hid, hrest hactive⟩
  · intro d hd
    rcases hrows d hd with hd | ⟨e, he, rfl⟩
    · obtain ⟨n, hn⟩ := hforest.rooted d hd
      exact ⟨n, depth_of_known hdocs hunique hforest hd hn⟩
    · by_cases hid : e.record.id = []
      · exact ⟨1, hroot e he hid⟩
      · have hspec := chain_spec hdocs hunique he hid (hchain e he)
        rw [placed_id hid]
        cases hattach : attachPoint s.docs (rs.map Entry.record) 4 e.record with
        | none =>
            rw [hattach] at hspec
            obtain ⟨m, -, hm⟩ := hspec
            exact ⟨m, hm⟩
        | some r =>
            rw [hattach] at hspec
            obtain ⟨n, hn⟩ := hforest.rooted r.2 hspec.1
            exact ⟨n + r.1, Depth.of_below hspec.2
              (depth_of_known hdocs hunique hforest hspec.1 hn)⟩
  · intro d hd hactive
    rcases hrows d hd with hd | ⟨e, he, rfl⟩
    · obtain ⟨n, hle, hn⟩ := hforest.depth d hd hactive
      exact ⟨n, hle, depth_of_known hdocs hunique hforest hd hn⟩
    · by_cases hid : e.record.id = []
      · exact ⟨1, by omega, hroot e he hid⟩
      · have hspec := chain_spec hdocs hunique he hid (hchain e he)
        rw [placed_id hid]
        cases hattach : attachPoint s.docs (rs.map Entry.record) 4 e.record with
        | none =>
            rw [hattach] at hspec
            exact hspec
        | some r =>
            rw [hattach] at hspec
            obtain ⟨-, -, n, hn, hle⟩ := h e he hid hactive r.1 r.2 hattach
            exact ⟨n + r.1, hle, Depth.of_below hspec.2
              (depth_of_known hdocs hunique hforest hspec.1 hn)⟩

/-- In a forest every new doc meets the store at a row that may be above it. -/
theorem DocForest.attached (hforest : DocForest s.docs)
    (hvalid : validateDocs (rs.map Entry.record) = .ok ()) (h : DocForest docs) : Attached s rs := by
  intro e he hid hactive k p hattach
  have hspec := chain_spec hdocs hunique he hid
    (validateDocs_eq_ok hvalid _ (List.mem_map_of_mem (mem_newDocs.1 he).1))
  rw [hattach] at hspec
  obtain ⟨hp, hbelow⟩ := hspec
  obtain ⟨q, hq, hqid, hqactive, hqservice⟩ :=
    h.ancestor hbelow (placed_mem hdocs he) (placed_id hid) hactive
  obtain rfl : q = p := List.inj_on_of_nodup_map hunique hq (known_mem hdocs hp) hqid
  refine ⟨hqactive, hqservice, ?_⟩
  obtain ⟨n, hn⟩ := hforest.rooted q hp
  obtain ⟨m, hle, hm⟩ := h.depth _ (placed_mem hdocs he) hactive
  rw [placed_id hid] at hm
  have hdepth := Depth.of_below hbelow (depth_of_known hdocs hunique hforest hp hn)
  exact ⟨n, hn, hm.unique hdepth ▸ hle⟩

end Import

/-- **When the docs form a forest after an import**: an import fails and leaves the store as it was,
or it only adds rows, and then the docs form a forest again if and only if every new active doc of
the bundle meets the store at an active doc of its service that is high enough. -/
theorem importInto_forest_iff (env : Env) (s : Tables) (b : Bundle) (hforest : DocForest s.docs)
    (hlinks : LinksOk s) :
    (∃ err, importInto env s b = (s, .error err)) ∨
      ∃ t res, importInto env s b = (t, .ok res) ∧ Additive s t ∧
        (DocForest t.docs ↔ Attached s b.docs) := by
  rw [importInto]
  cases hvalid : validateDocs (b.docs.map Entry.record) with
  | error err => exact Or.inl ⟨err, rfl⟩
  | ok u =>
      cases himport : importBundle env s b with
      | error err => exact Or.inl ⟨err, rfl⟩
      | ok r =>
          obtain ⟨t, res⟩ := r
          obtain ⟨hadd, -, hdocs, hunique⟩ := importBundle_additive hforest.unique hlinks himport
          refine Or.inr ⟨t, res, rfl, hadd, ?_⟩
          constructor
          · intro h
            exact hforest.attached hdocs hunique hvalid h
          · intro h
            exact h.forest hdocs hunique hforest hvalid

/-- A store with a note, and a bundle with another one under it. -/
def sampleDoc (id parentId : Bytes) (deletedAt : Option Bytes) : DocRecord :=
  ⟨id, bytes "Notes", .lab, [], [], 1, 0, .human, [], none, none, parentId, deletedAt, [], []⟩

def sampleStore (deletedAt : Option Bytes) : Tables :=
  ⟨[], [], [], [sampleDoc (bytes "p") [] deletedAt], [], [], [], [], [], [], []⟩

def sampleBundle : Bundle :=
  ⟨[], [], [], [⟨sampleDoc (bytes "p") [] none, ⟨bytes "n", by decide⟩⟩,
    ⟨sampleDoc (bytes "c") (bytes "p") none, ⟨bytes "m", by decide⟩⟩], [], [], [], [], [], []⟩

/-- A schema that asks nothing more, and contents without links. -/
def sampleEnv : Env := ⟨fun _ _ => true, fun _ => some false, fun _ => [], fun _ _ => false⟩

theorem sampleStore_forest (deletedAt : Option Bytes) : DocForest (sampleStore deletedAt).docs := by
  have hdepth : Depth (parentIn (sampleStore deletedAt).docs) (bytes "p") 1 := .root rfl
  have hrows : ∀ d ∈ (sampleStore deletedAt).docs, d = sampleDoc (bytes "p") [] deletedAt := by
    intro d hd
    exact List.mem_singleton.1 hd
  constructor
  · exact List.nodup_singleton _
  · intro d hd hne
    exact absurd (by rw [hrows d hd]; rfl) hne
  · intro d hd _ hne
    exact absurd (by rw [hrows d hd]; rfl) hne
  · intro d hd
    rw [hrows d hd]
    exact ⟨1, hdepth⟩
  · intro d hd _
    rw [hrows d hd]
    exact ⟨1, by decide, hdepth⟩

/-- A note that the store has is skipped, and the other one lies under it. -/
theorem importInto_forest_iff_sample :
    (∃ err, importInto sampleEnv (sampleStore none) sampleBundle = (sampleStore none, .error err)) ∨
      ∃ t res, importInto sampleEnv (sampleStore none) sampleBundle = (t, .ok res) ∧
        Additive (sampleStore none) t ∧
          (DocForest t.docs ↔ Attached (sampleStore none) sampleBundle.docs) :=
  importInto_forest_iff sampleEnv (sampleStore none) sampleBundle (sampleStore_forest none)
    (by simp [LinksOk, sampleStore])

/-- **A doc is created under one that the store has in the trash**: the bundle has both active. -/
theorem import_under_trash :
    DocForest (sampleStore (some (bytes "2026"))).docs ∧
      validateDocs (sampleBundle.docs.map Entry.record) = .ok () ∧
        ∃ t res, importInto sampleEnv (sampleStore (some (bytes "2026"))) sampleBundle =
          (t, .ok res) ∧ ¬ DocForest t.docs := by
  refine ⟨sampleStore_forest _, rfl, _, _, rfl, fun h => ?_⟩
  obtain ⟨p, hp, hid, hactive, -⟩ := h.parent (sampleDoc (bytes "c") (bytes "p") none)
    (by decide) rfl (by decide)
  revert hactive
  revert hid
  revert hp
  revert p
  decide

end WiseLabz.Backup
