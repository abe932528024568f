/-
**Attachments and the collection of their bytes.**

The bytes of attachments lie in files under their digests, and rows of the database refer to them.
An upload is streamed to a temporary file; its publication and the row that refers to it are under
one mutex, as is every other way in which a row comes about, and the job that collects what no row
refers to.  Rows go at any time.

Main definitions:

* `Blobs.BlobState`, `Blobs.Task` — the files, the rows, and the requests and jobs under way;
* `Blobs.Step`, `Blobs.machine` — **what they do**, in any order;
* `Blobs.sweepsUpload`, `Blobs.BlobState.blobReferenced` — what the collection removes.

Main results:

* `Blobs.row_has_blob` — **the bytes of every row are there**, in every reachable state;
* `Blobs.upload_is_kept` — an upload is there to be published for an hour at least.
-/

import WiseLabz.Lib.Bytes
import WiseLabz.Lib.Machine
import WiseLabz.Lib.Threads

set_option relaxedAutoImplicit false
set_option autoImplicit false

namespace WiseLabz.Blobs

open Lib

/-! ### Data -/

/-- A temporary file with the bytes of an upload; `modTime` is in seconds. -/
structure Upload where
  id : ℕ
  sha256 : Bytes
  modTime : ℕ
  deriving DecidableEq, Repr

structure DocAttachment where
  id : Bytes
  docID : Bytes
  sha256 : Bytes
  deriving DecidableEq, Repr

structure NotificationFile where
  notificationID : Bytes
  sha256 : Bytes
  deriving DecidableEq, Repr

/-- A request or a job, by how far it is. -/
inductive Task
  /-- `PostAttachment`, while its body is streamed. -/
  | stream (docID : Bytes)
  | staged (docID : Bytes) (temp : ℕ) (sha256 : Bytes)
  | publish (docID : Bytes) (temp : ℕ) (sha256 : Bytes)
  | commit (docID : Bytes) (sha256 : Bytes)
  /-- `persistNotificationFile`. -/
  | deliver (file : NotificationFile)
  | persist (file : NotificationFile)
  | record (file : NotificationFile)
  /-- The import of documents, or of a backup, with the rows that it brings. -/
  | bring (rows : List DocAttachment)
  | put (todo : List Bytes) (rows : List DocAttachment)
  /-- The retention job. -/
  | collect
  | sweep (started : ℕ)
  | remove (started : ℕ) (sha256 : Bytes)
  | done
  deriving DecidableEq, Repr

/-- Whether a task holds the mutex. -/
def Task.holds : Task → Bool
  | .publish .. | .commit .. | .persist _ | .record _ | .put .. | .sweep _ | .remove .. => true
  | _ => false

/-- What a task does once it has the mutex. -/
def Task.locked (now : ℕ) : Task → Option Task
  | .staged docID temp sha256 => some (.publish docID temp sha256)
  | .deliver file => some (.persist file)
  | .bring rows => some (.put (rows.map DocAttachment.sha256) rows)
  | .collect => some (.sweep now)
  | _ => none

/-- How a task begins. -/
def Task.begins : Task → Bool
  | .stream _ | .deliver _ | .bring _ | .collect => true
  | _ => false

/-- The temporary file of a task, and what it is to become. -/
def Task.temp? : Task → Option (ℕ × Bytes)
  | .staged _ temp sha256 => some (temp, sha256)
  | .publish _ temp sha256 => some (temp, sha256)
  | _ => none

/-- When a collection started. -/
def Task.started? : Task → Option ℕ
  | .sweep started => some started
  | .remove started _ => some started
  | _ => none

/-- The files, the rows, and what is under way; `staged` are all uploads that there have been. -/
structure BlobState where
  now : ℕ
  uploads : List Upload
  blobs : List Bytes
  docs : List Bytes
  attachments : List DocAttachment
  files : List NotificationFile
  tasks : List Task
  staged : List Upload

/-! ### Operations -/

def BlobState.setTask (s : BlobState) (i : ℕ) (t : Task) : BlobState :=
  { s with tasks := s.tasks.set i t }

/-- `Store.Stage`: a temporary file of its own. -/
def BlobState.stage (s : BlobState) (sha256 : Bytes) : BlobState :=
  { s with
    uploads := s.uploads ++ [⟨s.staged.length, sha256, s.now⟩]
    staged := s.staged ++ [⟨s.staged.length, sha256, s.now⟩] }

/-- A file under its digest. -/
def BlobState.addBlob (s : BlobState) (sha256 : Bytes) : BlobState :=
  { s with blobs := if sha256 ∈ s.blobs then s.blobs else s.blobs ++ [sha256] }

/-- `StagedBlob.Close`. -/
def BlobState.close (s : BlobState) (upload : Option ℕ) : BlobState :=
  { s with uploads := s.uploads.filter fun u => some u.id ≠ upload }

/-- `BlobReferenced`. -/
def BlobState.blobReferenced (s : BlobState) (sha256 : Bytes) : Bool :=
  s.attachments.any (·.sha256 = sha256) || s.files.any (·.sha256 = sha256)

/-- Whether a sweep that started then removes a temporary file. -/
def sweepsUpload (started : ℕ) (u : Upload) : Bool := u.modTime + 3600 < started

/-- `PutNotificationFile`: the first file of a notification stays. -/
def putNotificationFile (files : List NotificationFile) (file : NotificationFile) :
    List NotificationFile :=
  if files.any (·.notificationID = file.notificationID) then files else files ++ [file]

/-! ### The machine -/

inductive Event
  | tick
  | begin
  | stage (i : ℕ)
  | lock (i : ℕ)
  | go (i : ℕ)
  | finish (i : ℕ)
  | rows

/-- **What happens**, one thing after the other. -/
inductive Step (s : BlobState) : Event → BlobState → Prop
  | tick (seconds : ℕ) : Step s .tick { s with now := s.now + seconds }
  | begin {t : Task} : t.begins = true → Step s .begin { s with tasks := s.tasks ++ [t] }
  /-- The body of an upload is streamed. -/
  | stage {i : ℕ} {docID sha256 : Bytes} : s.tasks[i]? = some (.stream docID) →
      Step s (.stage i) ((s.stage sha256).setTask i (.staged docID s.staged.length sha256))
  /-- The mutex is free, and taken. -/
  | lock {i : ℕ} {t t' : Task} : s.tasks[i]? = some t → t.locked s.now = some t' →
      (∀ u ∈ s.tasks, u.holds = false) → Step s (.lock i) (s.setTask i t')
  /-- A staged upload is moved to its digest; the file has to be there. -/
  | publish {i temp : ℕ} {docID sha256 : Bytes} :
      s.tasks[i]? = some (.publish docID temp sha256) → (∃ u ∈ s.uploads, u.id = temp) →
        Step s (.go i) (((s.addBlob sha256).close (some temp)).setTask i (.commit docID sha256))
  /-- The row is written if the document is there. -/
  | commit {i : ℕ} {docID sha256 id : Bytes} : s.tasks[i]? = some (.commit docID sha256) →
      docID ∈ s.docs → Step s (.go i) (BlobState.setTask
        { s with attachments := s.attachments ++ [⟨id, docID, sha256⟩] } i .done)
  | persist {i : ℕ} {file : NotificationFile} : s.tasks[i]? = some (.persist file) →
      (∀ f ∈ s.files, f.notificationID ≠ file.notificationID) →
        Step s (.go i) ((s.addBlob file.sha256).setTask i (.record file))
  | record {i : ℕ} {file : NotificationFile} : s.tasks[i]? = some (.record file) →
      Step s (.go i)
        (BlobState.setTask { s with files := putNotificationFile s.files file } i .done)
  | put {i : ℕ} {sha256 : Bytes} {todo : List Bytes} {rows : List DocAttachment} :
      s.tasks[i]? = some (.put (sha256 :: todo) rows) →
        Step s (.go i) ((s.addBlob sha256).setTask i (.put todo rows))
  /-- The rows of an import are written together. -/
  | bring {i : ℕ} {rows : List DocAttachment} : s.tasks[i]? = some (.put [] rows) →
      Step s (.go i) (BlobState.setTask { s with attachments := s.attachments ++ rows } i .done)
  | sweepUpload {i started : ℕ} {u : Upload} : s.tasks[i]? = some (.sweep started) →
      u ∈ s.uploads → sweepsUpload started u = true → Step s (.go i) (s.close (some u.id))
  /-- A file that no row refers to is found. -/
  | visit {i started : ℕ} {sha256 : Bytes} : s.tasks[i]? = some (.sweep started) →
      sha256 ∈ s.blobs → s.blobReferenced sha256 = false →
        Step s (.go i) (s.setTask i (.remove started sha256))
  | remove {i started : ℕ} {sha256 : Bytes} : s.tasks[i]? = some (.remove started sha256) →
      Step s (.go i)
        (BlobState.setTask { s with blobs := s.blobs.filter (· ≠ sha256) } i (.sweep started))
  /-- A task ends, for whatever reason; what it has staged is discarded. -/
  | finish {i : ℕ} {t : Task} : s.tasks[i]? = some t →
      Step s (.finish i) ((s.close (t.temp?.map Prod.fst)).setTask i .done)
  /-- Rows are deleted, and documents come and go. -/
  | rows {docs : List Bytes} {attachments : List DocAttachment} {files : List NotificationFile} :
      attachments ⊆ s.attachments → files ⊆ s.files →
        Step s .rows { s with docs := docs, attachments := attachments, files := files }

/-- **The attachments of one process**, from the start with nothing there. -/
def machine : Machine BlobState Event where
  init s := s.blobs = [] ∧ s.uploads = [] ∧ s.attachments = [] ∧ s.files = [] ∧ s.tasks = [] ∧
    s.staged = []
  step := Step

/-! ### The bytes of the rows -/

/-- What the tasks that hold the mutex know. -/
def Task.Ok (s : BlobState) : Task → Prop
  | .commit _ sha256 => sha256 ∈ s.blobs
  | .record file => file.sha256 ∈ s.blobs
  | .put todo rows => ∀ a ∈ rows, a.sha256 ∈ todo ∨ a.sha256 ∈ s.blobs
  | .remove _ sha256 => s.blobReferenced sha256 = false
  | _ => True

/-- What holds of the files and the rows. -/
structure Inv (s : BlobState) : Prop where
  attachments : ∀ a ∈ s.attachments, a.sha256 ∈ s.blobs
  files : ∀ f ∈ s.files, f.sha256 ∈ s.blobs
  one : Apart (fun a b => ¬ (a.holds = true ∧ b.holds = true)) s.tasks
  tasks : ∀ t ∈ s.tasks, t.Ok s

theorem Task.ok_of_not_holds {s : BlobState} {t : Task} (h : t.holds = false) : t.Ok s := by
  cases t <;> first | exact True.intro | cases h

/-- A task that has just taken the mutex has everything before it. -/
theorem Task.ok_of_locked {s : BlobState} {now : ℕ} {t t' : Task} (h : t.locked now = some t') :
    t'.Ok s := by
  cases t with
  | bring rows =>
      obtain rfl := Option.some.inj h
      exact fun a ha => .inl (List.mem_map_of_mem ha)
  | staged docID temp sha256 =>
      obtain rfl := Option.some.inj h
      trivial
  | deliver file =>
      obtain rfl := Option.some.inj h
      trivial
  | collect =>
      obtain rfl := Option.some.inj h
      trivial
  | _ => cases h

theorem Task.begins_not_holds {t : Task} (h : t.begins = true) : t.holds = false := by
  cases t <;> first | rfl | cases h

theorem mem_addBlob {s : BlobState} {sha256 h : Bytes} :
    h ∈ (s.addBlob sha256).blobs ↔ h ∈ s.blobs ∨ h = sha256 := by
  rw [BlobState.addBlob]
  split
  · exact ⟨.inl, fun hor => hor.elim id fun heq => heq ▸ ‹_›⟩
  · simp

theorem blobReferenced_eq_false {s : BlobState} {sha256 : Bytes} :
    s.blobReferenced sha256 = false ↔
      (∀ a ∈ s.attachments, a.sha256 ≠ sha256) ∧ ∀ f ∈ s.files, f.sha256 ≠ sha256 := by
  simp [BlobState.blobReferenced]

/-- **What a task keeps that holds the mutex**: the others do not hold it. -/
theorem Inv.holder {s s' : BlobState} (h : Inv s) {i : ℕ} {t t' : Task} (hi : s.tasks[i]? = some t)
    (hholds : t.holds = true) (htasks : s'.tasks = s.tasks.set i t')
    (hattachments : ∀ a ∈ s'.attachments, a.sha256 ∈ s'.blobs)
    (hfiles : ∀ f ∈ s'.files, f.sha256 ∈ s'.blobs) (hok : t'.Ok s') : Inv s' := by
  have hothers : ∀ j u, j ≠ i → s.tasks[j]? = some u → u.holds = false := by
    intro j u hne hj
    have := h.one i j t u hi hj hne.symm
    simpa [hholds] using this
  refine ⟨hattachments, hfiles, ?_, ?_⟩
  · rw [htasks]
    refine h.one.set hi fun j u hne hj => ?_
    simp [hothers j u hne hj]
  · rw [htasks]
    intro u hu
    obtain ⟨j, hj⟩ := List.mem_iff_getElem?.1 hu
    rw [getElem?_set_of_some hi] at hj
    split at hj
    · exact Option.some.inj hj ▸ hok
    · exact Task.ok_of_not_holds (hothers j u ‹_› hj)

/-- **What a task keeps that does not hold the mutex** and touches no row and no blob. -/
theorem Inv.other {s s' : BlobState} (h : Inv s) {i : ℕ} {t t' : Task} (hi : s.tasks[i]? = some t)
    (ht' : t'.holds = false) (htasks : s'.tasks = s.tasks.set i t')
    (hblobs : s'.blobs = s.blobs) (hattachments : s'.attachments = s.attachments)
    (hfiles : s'.files = s.files) : Inv s' := by
  have hok : ∀ u : Task, u.Ok s → u.Ok s' := by
    intro u hu
    cases u <;> simp_all [Task.Ok, BlobState.blobReferenced]
  refine ⟨?_, ?_, ?_, ?_⟩
  · rw [hattachments, hblobs]
    exact h.attachments
  · rw [hfiles, hblobs]
    exact h.files
  · rw [htasks]
    exact h.one.set hi fun j u _ _ => by simp [ht']
  · rw [htasks]
    exact forall_mem_set (fun u hu => hok u (h.tasks u hu)) (Task.ok_of_not_holds ht')

theorem inv_step {s s' : BlobState} {a : Event} (h : Inv s) (hstep : Step s a s') : Inv s' := by
  have htask : ∀ {i : ℕ} {t : Task}, s.tasks[i]? = some t → t.Ok s := fun hi =>
    h.tasks _ (List.mem_of_getElem? hi)
  cases hstep with
  | tick => exact ⟨h.attachments, h.files, h.one, h.tasks⟩
  | begin hbegins =>
      have hholds := Task.begins_not_holds hbegins
      exact ⟨h.attachments, h.files, h.one.append_singleton fun u _ => by simp [hholds],
        forall_mem_append_singleton h.tasks (Task.ok_of_not_holds hholds)⟩
  | stage hi => exact h.other hi rfl rfl rfl rfl rfl
  | @lock i t t' hi hlocked hfree =>
      refine ⟨h.attachments, h.files, h.one.set hi fun j u _ hj => ?_,
        forall_mem_set h.tasks ?_⟩
      · simp [hfree u (List.mem_of_getElem? hj)]
      · exact Task.ok_of_locked hlocked
  | publish hi =>
      refine h.holder hi rfl rfl (fun a ha => mem_addBlob.2 (.inl (h.attachments a ha)))
        (fun f hf => mem_addBlob.2 (.inl (h.files f hf))) (mem_addBlob.2 (.inr rfl))
  | commit hi =>
      refine h.holder hi rfl rfl ?_ h.files trivial
      exact forall_mem_append_singleton h.attachments (htask hi)
  | persist hi =>
      exact h.holder hi rfl rfl (fun a ha => mem_addBlob.2 (.inl (h.attachments a ha)))
        (fun f hf => mem_addBlob.2 (.inl (h.files f hf))) (mem_addBlob.2 (.inr rfl))
  | record hi =>
      refine h.holder hi rfl rfl h.attachments ?_ trivial
      intro f hf
      change f ∈ putNotificationFile s.files _ at hf
      rw [putNotificationFile] at hf
      split at hf
      · exact h.files f hf
      · exact forall_mem_append_singleton h.files (htask hi) f hf
  | put hi =>
      refine h.holder hi rfl rfl (fun a ha => mem_addBlob.2 (.inl (h.attachments a ha)))
        (fun f hf => mem_addBlob.2 (.inl (h.files f hf))) fun a ha => ?_
      rcases htask hi a ha with hmem | hblob
      · rcases List.mem_cons.1 hmem with heq | hmem
        · exact .inr (mem_addBlob.2 (.inr heq))
        · exact .inl hmem
      · exact .inr (mem_addBlob.2 (.inl hblob))
  | bring hi =>
      refine h.holder hi rfl rfl (fun a ha => ?_) h.files trivial
      rcases List.mem_append.1 ha with ha | ha
      · exact h.attachments a ha
      · exact (htask hi a ha).resolve_left List.not_mem_nil
  | sweepUpload => exact ⟨h.attachments, h.files, h.one, h.tasks⟩
  | visit hi _ hunreferenced => exact h.holder hi rfl rfl h.attachments h.files hunreferenced
  | remove hi =>
      obtain ⟨hattachments, hfiles⟩ := blobReferenced_eq_false.1 (htask hi)
      refine h.holder hi rfl rfl (fun a ha => ?_) (fun f hf => ?_) trivial
      · exact List.mem_filter.2 ⟨h.attachments a ha, by simpa using hattachments a ha⟩
      · exact List.mem_filter.2 ⟨h.files f hf, by simpa using hfiles f hf⟩
  | finish hi => exact h.other hi rfl rfl rfl rfl rfl
  | @rows docs attachments files hattachments hfiles =>
      refine ⟨fun a ha => h.attachments a (hattachments ha), fun f hf => h.files f (hfiles hf),
        h.one, fun t ht => ?_⟩
      have hok := h.tasks t ht
      cases t <;> first | exact hok | skip
      obtain ⟨hold, hold'⟩ := blobReferenced_eq_false.1 hok
      exact blobReferenced_eq_false.2
        ⟨fun a ha => hold a (hattachments ha), fun f hf => hold' f (hfiles hf)⟩

/-- **The bytes of every row are there**, whatever is under way. -/
theorem row_has_blob {s : BlobState} (h : machine.Reachable s) :
    (∀ a ∈ s.attachments, a.sha256 ∈ s.blobs) ∧ ∀ f ∈ s.files, f.sha256 ∈ s.blobs := by
  have hinv : Inv s := h.invariant
    (fun s ⟨_, _, hattachments, hfiles, htasks, _⟩ =>
      ⟨by simp [hattachments], by simp [hfiles], htasks ▸ apart_nil _, by simp [htasks]⟩)
    fun _ _ _ => inv_step
  exact ⟨hinv.attachments, hinv.files⟩

/-! ### The uploads under way -/

/-- What holds of the uploads: every one that is to be published is still there, or was staged more
than an hour ago. -/
structure UploadInv (s : BlobState) : Prop where
  indexed : ∀ u ∈ s.staged, s.staged[u.id]? = some u
  uploads : s.uploads ⊆ s.staged
  apart : Apart (fun a b => ∀ x ∈ a.temp?, ∀ y ∈ b.temp?, x.1 ≠ y.1) s.tasks
  kept : ∀ t ∈ s.tasks, ∀ x ∈ t.temp?, ∃ u ∈ s.staged, u.id = x.1 ∧ u.sha256 = x.2 ∧
    (u ∈ s.uploads ∨ u.modTime + 3600 < s.now)
  started : ∀ t ∈ s.tasks, ∀ n ∈ t.started?, n ≤ s.now

/-- **What a task keeps** that gives up its own upload at most, or removes an old one. -/
theorem UploadInv.keep {s s' : BlobState} (h : UploadInv s) {i : ℕ} {t t' : Task}
    (hi : s.tasks[i]? = some t) (htasks : s'.tasks = s.tasks.set i t')
    (htemp : ∀ x ∈ t'.temp?, x ∈ t.temp?) (hstarted : ∀ n ∈ t'.started?, n ≤ s.now)
    (hstaged : s'.staged = s.staged) (hnow : s'.now = s.now) (hsub : s'.uploads ⊆ s.uploads)
    (hgone : ∀ u ∈ s.uploads, u ∉ s'.uploads →
      ((∃ x ∈ t.temp?, x.1 = u.id) ∧ t'.temp? = none) ∨ u.modTime + 3600 < s.now) :
    UploadInv s' := by
  refine ⟨hstaged ▸ h.indexed, hstaged ▸ fun u hu => h.uploads (hsub hu), ?_, ?_, ?_⟩
  · rw [htasks]
    refine h.apart.set hi fun j u hne hj => ⟨fun x hx y hy => ?_, fun x hx y hy => ?_⟩
    · exact h.apart i j t u hi hj hne.symm x (htemp x hx) y hy
    · exact h.apart j i u t hj hi hne x hx y (htemp y hy)
  · rw [htasks, hstaged, hnow]
    intro t₂ ht₂ x hx
    obtain ⟨j, hj⟩ := List.mem_iff_getElem?.1 ht₂
    rw [getElem?_set_of_some hi] at hj
    split at hj
    · obtain rfl := Option.some.inj hj
      obtain ⟨u, hu, hid, hsha, hkept⟩ := h.kept t (List.mem_of_getElem? hi) x (htemp x hx)
      refine ⟨u, hu, hid, hsha, or_iff_not_imp_left.2 fun hnot => ?_⟩
      rcases hkept with hkept | hold
      · refine (hgone u hkept hnot).resolve_left fun ⟨_, hnone⟩ => ?_
        rw [hnone] at hx
        cases hx
      · exact hold
    · obtain ⟨u, hu, hid, hsha, hkept⟩ := h.kept t₂ (List.mem_of_getElem? hj) x hx
      refine ⟨u, hu, hid, hsha, or_iff_not_imp_left.2 fun hnot => ?_⟩
      rcases hkept with hkept | hold
      · refine (hgone u hkept hnot).resolve_left fun ⟨⟨y, hy, hyid⟩, _⟩ => ?_
        exact h.apart j i t₂ t hj hi ‹_› x hx y hy (hid.symm.trans hyid.symm)
      · exact hold
  · rw [htasks, hnow]
    exact forall_mem_set h.started hstarted

theorem mem_close {s : BlobState} {temp : Option ℕ} {u : Upload} :
    u ∈ (s.close temp).uploads ↔ u ∈ s.uploads ∧ some u.id ≠ temp := by
  simp [BlobState.close]

theorem uploadInv_step {s s' : BlobState} {a : Event} (h : UploadInv s) (hstep : Step s a s') :
    UploadInv s' := by
  cases hstep with
  | tick seconds =>
      refine ⟨h.indexed, h.uploads, h.apart, fun t ht x hx => ?_, fun t ht n hn => ?_⟩
      · obtain ⟨u, hu, hid, hsha, hkept⟩ := h.kept t ht x hx
        exact ⟨u, hu, hid, hsha, hkept.imp_right fun hold => Nat.lt_add_right _ hold⟩
      · exact (h.started t ht n hn).trans (Nat.le_add_right _ _)
  | @begin t hbegins =>
      have htemp : t.temp? = none := by cases t <;> first | rfl | cases hbegins
      have hstarted : t.started? = none := by cases t <;> first | rfl | cases hbegins
      refine ⟨h.indexed, h.uploads, h.apart.append_singleton fun u _ => ?_,
        forall_mem_append_singleton h.kept ?_, forall_mem_append_singleton h.started ?_⟩
      · simp [htemp]
      · simp [htemp]
      · simp [hstarted]
  | @stage i docID sha256 hi =>
      have hnew : ∀ t ∈ s.tasks, ∀ x ∈ t.temp?, x.1 < s.staged.length := by
        intro t ht x hx
        obtain ⟨u, hu, hid, -⟩ := h.kept t ht x hx
        exact hid ▸ (List.getElem?_eq_some_iff.1 (h.indexed u hu)).1
      refine ⟨?_, ?_, ?_, ?_, ?_⟩
      · refine forall_mem_append_singleton (fun u hu => ?_) ?_
        · exact List.getElem?_append_left (List.getElem?_eq_some_iff.1 (h.indexed u hu)).1 ▸
            h.indexed u hu
        · exact List.getElem?_concat_length
      · exact List.append_subset.2 ⟨fun u hu => List.mem_append_left _ (h.uploads hu),
          List.subset_append_right _ _⟩
      · refine h.apart.set hi fun j u hne hj => ⟨?_, ?_⟩
        · rintro x ⟨⟩ y hy heq
          have hlt := hnew u (List.mem_of_getElem? hj) y hy
          exact absurd heq.symm hlt.ne
        · rintro x hx y ⟨⟩ heq
          have hlt := hnew u (List.mem_of_getElem? hj) x hx
          exact absurd heq hlt.ne
      · refine forall_mem_set (fun t ht x hx => ?_) ?_
        · obtain ⟨u, hu, hid, hsha, hkept⟩ := h.kept t ht x hx
          exact ⟨u, List.mem_append_left _ hu, hid, hsha,
            hkept.imp_left fun hu => List.mem_append_left _ hu⟩
        · rintro x ⟨⟩
          exact ⟨_, List.mem_append_right _ (List.mem_singleton_self _), rfl, rfl,
            .inl (List.mem_append_right _ (List.mem_singleton_self _))⟩
      · exact forall_mem_set h.started fun n hn => by cases hn
  | @lock i t t' hi hlocked _ =>
      refine h.keep hi rfl ?_ ?_ rfl rfl (List.Subset.refl _) fun u hu hnot => absurd hu hnot
      · cases t <;> cases hlocked <;> exact fun x hx => hx
      · cases t <;> cases hlocked <;> rintro n ⟨⟩
        exact le_rfl
  | @publish i temp docID sha256 hi =>
      refine h.keep hi rfl (fun x hx => by cases hx) (fun n hn => by cases hn) rfl rfl
        (List.filter_subset_self _) fun u hu hnot => .inl ⟨⟨(temp, sha256), rfl, ?_⟩, rfl⟩
      by_contra hne
      exact hnot (List.mem_filter.2 ⟨hu, by simpa using fun heq => hne heq.symm⟩)
  | @sweepUpload i started u hi hu hswept =>
      have hle : started ≤ s.now := h.started _ (List.mem_of_getElem? hi) started rfl
      have hset : s.tasks.set i (.sweep started) = s.tasks := by
        refine List.ext_getElem? fun j => ?_
        rw [getElem?_set_of_some hi]
        split
        · next hj => rw [hj, hi]
        · rfl
      have hnone : ∀ x ∈ (Task.sweep started).temp?, x ∈ (Task.sweep started).temp? := by
        intro x hx
        cases hx
      refine h.keep hi hset.symm hnone
        (fun n hn => h.started _ (List.mem_of_getElem? hi) n hn) rfl rfl (List.filter_subset_self _)
        fun v hv hnot => .inr ?_
      have hid : v.id = u.id := by
        by_contra hne
        exact hnot (mem_close.2 ⟨hv, by simpa using hne⟩)
      have hvu : v = u := by
        have hv' := h.indexed v (h.uploads hv)
        rw [hid, h.indexed u (h.uploads hu)] at hv'
        exact (Option.some.inj hv').symm
      rw [hvu]
      exact (of_decide_eq_true hswept).trans_le hle
  | @finish i t hi =>
      refine h.keep hi rfl (fun x hx => by cases hx) (fun n hn => by cases hn) rfl rfl
        (List.filter_subset_self _) fun u hu hnot => .inl ⟨?_, rfl⟩
      by_contra hne
      refine hnot (mem_close.2 ⟨hu, fun heq => ?_⟩)
      obtain ⟨x, hx, hid⟩ := Option.map_eq_some_iff.1 heq.symm
      exact hne ⟨x, hx, hid⟩
  | rows => exact ⟨h.indexed, h.uploads, h.apart, h.kept, h.started⟩
  | visit hi =>
      exact h.keep hi rfl (fun x hx => by cases hx)
        (fun n hn => h.started _ (List.mem_of_getElem? hi) n hn) rfl rfl (List.Subset.refl _)
        fun u hu hnot => absurd hu hnot
  | remove hi =>
      exact h.keep hi rfl (fun x hx => by cases hx)
        (fun n hn => h.started _ (List.mem_of_getElem? hi) n hn) rfl rfl (List.Subset.refl _)
        fun u hu hnot => absurd hu hnot
  | commit hi =>
      exact h.keep hi rfl (fun x hx => by cases hx) (fun n hn => by cases hn) rfl rfl
        (List.Subset.refl _) fun u hu hnot => absurd hu hnot
  | persist hi =>
      exact h.keep hi rfl (fun x hx => by cases hx) (fun n hn => by cases hn) rfl rfl
        (List.Subset.refl _) fun u hu hnot => absurd hu hnot
  | record hi =>
      exact h.keep hi rfl (fun x hx => by cases hx) (fun n hn => by cases hn) rfl rfl
        (List.Subset.refl _) fun u hu hnot => absurd hu hnot
  | put hi =>
      exact h.keep hi rfl (fun x hx => by cases hx) (fun n hn => by cases hn) rfl rfl
        (List.Subset.refl _) fun u hu hnot => absurd hu hnot
  | bring hi =>
      exact h.keep hi rfl (fun x hx => by cases hx) (fun n hn => by cases hn) rfl rfl
        (List.Subset.refl _) fun u hu hnot => absurd hu hnot

/-- **An upload is there to be published** for an hour after it is staged at least, whatever is
collected and however long it waits for the mutex. -/
theorem upload_is_kept {s : BlobState} (h : machine.Reachable s) :
    ∀ t ∈ s.tasks, ∀ x ∈ t.temp?, ∃ u ∈ s.staged, u.id = x.1 ∧ u.sha256 = x.2 ∧
      (u ∈ s.uploads ∨ u.modTime + 3600 < s.now) := by
  have hinv : UploadInv s := h.invariant
    (fun s ⟨_, huploads, _, _, htasks, hstaged⟩ =>
      ⟨by simp [hstaged], by simp [huploads], htasks ▸ apart_nil _, by simp [htasks],
        by simp [htasks]⟩)
    fun _ _ _ => uploadInv_step
  exact hinv.kept

/-! ### One upload -/

/-- An upload that waits for the mutex while the collection has it. -/
theorem reachable_staged : ∃ s, machine.Reachable s ∧
    s.tasks = [.staged [100] 0 [97], .sweep 7200] := by
  have h₀ : machine.Reachable ⟨7200, [], [], [[100]], [], [], [], []⟩ :=
    .of_init ⟨rfl, rfl, rfl, rfl, rfl, rfl⟩
  have h₁ := h₀.step (@Step.begin _ (.stream [100]) rfl)
  have h₂ := h₁.step (@Step.begin _ .collect rfl)
  have h₃ := h₂.step (@Step.stage _ 0 [100] [97] rfl)
  have h₄ := h₃.step (@Step.lock _ 1 .collect (.sweep 7200) rfl rfl (by decide))
  exact ⟨_, h₄, rfl⟩

/-- The row of the upload, once the collection is over. -/
theorem reachable_committed : ∃ s, machine.Reachable s ∧ s.attachments = [⟨[1], [100], [97]⟩] := by
  have h₀ : machine.Reachable ⟨7200, [], [], [[100]], [], [], [], []⟩ :=
    .of_init ⟨rfl, rfl, rfl, rfl, rfl, rfl⟩
  have h₁ := h₀.step (@Step.begin _ (.stream [100]) rfl)
  have h₂ := h₁.step (@Step.begin _ .collect rfl)
  have h₃ := h₂.step (@Step.stage _ 0 [100] [97] rfl)
  have h₄ := h₃.step (@Step.lock _ 1 .collect (.sweep 7200) rfl rfl (by decide))
  have h₅ := h₄.step (@Step.finish _ 1 (.sweep 7200) rfl)
  have h₆ := h₅.step (@Step.lock _ 0 (.staged [100] 0 [97]) _ rfl rfl (by decide))
  have h₇ := h₆.step (@Step.publish _ 0 0 [100] [97] rfl ⟨_, List.mem_singleton_self _, rfl⟩)
  have h₈ := h₇.step (@Step.commit _ 0 [100] [97] [1] rfl (List.mem_singleton_self _))
  exact ⟨_, h₈, rfl⟩

theorem row_has_blob_committed : ∃ s, machine.Reachable s ∧ [97] ∈ s.blobs := by
  obtain ⟨s, hs, hrows⟩ := reachable_committed
  have hrow : (⟨[1], [100], [97]⟩ : DocAttachment) ∈ s.attachments := by
    rw [hrows]
    exact List.mem_singleton_self _
  exact ⟨s, hs, (row_has_blob hs).1 ⟨[1], [100], [97]⟩ hrow⟩

theorem upload_is_kept_staged : ∃ s, machine.Reachable s ∧ ∃ u ∈ s.staged, u.sha256 = [97] ∧
    (u ∈ s.uploads ∨ u.modTime + 3600 < s.now) := by
  obtain ⟨s, hs, htasks⟩ := reachable_staged
  obtain ⟨u, hu, -, hsha, hkept⟩ := upload_is_kept hs (.staged [100] 0 [97])
    (by rw [htasks]; exact List.mem_cons_self) (0, [97]) rfl
  exact ⟨s, hs, u, hu, hsha, hkept⟩

end WiseLabz.Blobs
