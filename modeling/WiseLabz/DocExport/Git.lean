/-
**The Git export of docs, revision by revision.**

A run of the export reads the docs, then the revisions after those that it exported before, makes
one commit of each, and at the end exports the current docs once more.  What it exported is in a
file of the repository, so that a run that is not pushed is undone with it.  Docs are created, saved
and renamed while a run goes on.

Main definitions:

* `DocExport.fileName`, `DocExport.isGeneratedName` — the file of a doc;
* `DocExport.listDocVersionsAfter` — the revisions that a run has yet to commit;
* `DocExport.Commit`, `DocExport.State` — the remote history, the store and a run;
* `DocExport.next` — **one step of the store or of a run**.
-/

import WiseLabz.Lib.Bytes
import WiseLabz.Lib.Machine
import WiseLabz.Lib.Table
import Mathlib.Data.List.Sort

set_option relaxedAutoImplicit false
set_option autoImplicit false

namespace WiseLabz.DocExport

open Lib

/-! ### The store -/

structure DocRow where
  id : Bytes
  title : Bytes
  currentVersion : ℕ
  content : Bytes
  updatedAt : ℕ
  deleted : Bool
  deriving DecidableEq, Repr

/-- A row of `doc_versions`. -/
structure Version where
  docID : Bytes
  rev : ℕ
  content : Bytes
  createdAt : ℕ
  deriving DecidableEq, Repr

/-- A UUID in its text form. -/
def isUuid (s : Bytes) : Bool :=
  s.length = 36 && (List.range 36).all fun i =>
    if i ∈ [8, 13, 18, 23] then s[i]? = some 45 else (s[i]?).any isHexChar

/-! ### The repository -/

/-- What the export state says of a doc. -/
structure Cursor where
  docID : Bytes
  rev : ℕ
  file : Bytes
  deriving DecidableEq, Repr

structure File where
  name : Bytes
  content : Bytes
  deriving DecidableEq, Repr

/-- The export directory: the export state, if there is one, and the files of the docs. -/
structure Tree where
  state : Option (List Cursor)
  files : List File
  deriving DecidableEq, Repr

def Tree.cursors (t : Tree) : List Cursor := t.state.getD []

/-- A commit; that of a revision names the doc and the revision. -/
structure Commit where
  tree : Tree
  revision : Option (Bytes × ℕ)
  deriving DecidableEq, Repr

/-- The tree of the last commit. -/
def headTree (history : List Commit) : Tree := (history.getLast?.map Commit.tree).getD ⟨none, []⟩

/-- The same rows, in whatever order. -/
def sameRows {α κ : Type} [DecidableEq α] [DecidableEq κ] (key : α → κ) (rows rows' : List α) :
    Bool :=
  (rows.all fun r => lookup key rows' (key r) = some r) &&
    rows'.all fun r => lookup key rows (key r) = some r

/-- A clean worktree. -/
def Tree.same (t t' : Tree) : Bool :=
  (match t.state, t'.state with
    | none, none => true
    | some cursors, some cursors' => sameRows Cursor.docID cursors cursors'
    | _, _ => false) &&
    sameRows File.name t.files t'.files

/-- `commitWith`: the commits that are made, none of a clean worktree. -/
def commitWith (history : List Commit) (tree : Tree) (revision : Option (Bytes × ℕ)) :
    List Commit :=
  if (headTree history).same tree then [] else [⟨tree, revision⟩]

/-- The settings of the export, and what it takes from elsewhere. -/
structure Env where
  maxRevisionsPerRun : ℕ
  maxRevisionsPerRun_pos : 0 < maxRevisionsPerRun
  toLower : Bytes → Bytes
  /-- `exportContent`, of a doc's id and a content. -/
  exportContent : Bytes → Bytes → Bytes

/-! ### File names -/

def isSlugChar (b : UInt8) : Bool := (97 ≤ b && b ≤ 122) || (48 ≤ b && b ≤ 57) || b = 45

/-- One character of `slugify`: the slug so far, and whether it has just been given a dash. -/
def slugStep (out : Bytes × Bool) (b : UInt8) : Bytes × Bool :=
  if (97 ≤ b && b ≤ 122) || (48 ≤ b && b ≤ 57) then (out.1 ++ [b], false)
  else if !out.2 && out.1 ≠ [] then (out.1 ++ [45], true)
  else out

/-- `slugify`. -/
def slugify (env : Env) (s : Bytes) : Bytes :=
  let slug := ((env.toLower s).foldl slugStep ([], false)).1
  if slug.getLast? = some 45 then slug.dropLast else slug

/-- `fileName`. -/
def fileName (env : Env) (title id : Bytes) : Bytes :=
  let slug := if slugify env title = [] then bytes "untitled" else slugify env title
  slug ++ bytes "-" ++ id.take 8 ++ bytes ".md"

/-- `IsGeneratedName`: a slug with eight digits, or a UUID. -/
def isGeneratedName (name : Bytes) : Bool :=
  let body := name.take (name.length - 3)
  let n := body.length
  name.drop (name.length - 3) = bytes ".md" &&
    ((10 ≤ n && (body.drop (n - 8)).all isHexChar && body[n - 9]? = some 45 &&
        (body.take (n - 9)).all isSlugChar) || isUuid body)

/-! ### File names are generated ones -/

theorem slugStep_all {out : Bytes × Bool} (h : ∀ b ∈ out.1, isSlugChar b = true) (b : UInt8) :
    ∀ b' ∈ (slugStep out b).1, isSlugChar b' = true := by
  unfold slugStep
  intro b' hb'
  split at hb'
  · next hb =>
      rcases List.mem_append.1 hb' with hb' | hb'
      · exact h b' hb'
      · rw [List.mem_singleton.1 hb', isSlugChar, hb, Bool.true_or]
  · split at hb'
    · rcases List.mem_append.1 hb' with hb' | hb'
      · exact h b' hb'
      · rw [List.mem_singleton.1 hb']
        rfl
    · exact h b' hb'

theorem slugify_all (env : Env) (s : Bytes) : ∀ b ∈ slugify env s, isSlugChar b = true := by
  have hfold : ∀ (cs : Bytes) (out : Bytes × Bool), (∀ b ∈ out.1, isSlugChar b = true) →
      ∀ b ∈ (cs.foldl slugStep out).1, isSlugChar b = true := by
    intro cs
    induction cs with
    | nil => exact fun _ h => h
    | cons c cs ih => exact fun out h => ih _ (slugStep_all h c)
  have hall := hfold (env.toLower s) ([], false) (fun b hb => absurd hb List.not_mem_nil)
  intro b hb
  unfold slugify at hb
  dsimp only at hb
  split at hb
  · exact hall b (List.dropLast_subset _ hb)
  · exact hall b hb

/-- A UUID starts with eight digits. -/
theorem take_of_isUuid {id : Bytes} (h : isUuid id = true) :
    (id.take 8).length = 8 ∧ ∀ b ∈ id.take 8, isHexChar b = true := by
  simp only [isUuid, Bool.and_eq_true, decide_eq_true_eq, List.all_eq_true, List.mem_range] at h
  obtain ⟨hlength, hall⟩ := h
  refine ⟨by rw [List.length_take]; omega, ?_⟩
  intro b hb
  obtain ⟨i, hi, rfl⟩ := List.getElem_of_mem hb
  have hi8 : i < 8 := by
    rw [List.length_take] at hi
    omega
  have hnot : i ∉ [8, 13, 18, 23] := by
    simp only [List.mem_cons, List.not_mem_nil, or_false]
    omega
  have hdigit := hall i (by omega)
  rw [if_neg hnot, List.getElem?_eq_getElem (by omega), Option.any_some] at hdigit
  rwa [List.getElem_take]

/-- The file of a doc may be deleted by a later run, and is in the export directory. -/
theorem fileName_generated (env : Env) (title : Bytes) {id : Bytes} (h : isUuid id = true) :
    isGeneratedName (fileName env title id) = true ∧ 47 ∉ fileName env title id := by
  obtain ⟨hlength, hdigits⟩ := take_of_isUuid h
  obtain ⟨slug, hname, hslug, hne⟩ : ∃ slug : Bytes,
      fileName env title id = slug ++ 45 :: (id.take 8) ++ bytes ".md" ∧
        (∀ b ∈ slug, isSlugChar b = true) ∧ slug ≠ [] := by
    by_cases hs : slugify env title = []
    · have hall : (bytes "untitled").all isSlugChar = true := by decide
      refine ⟨bytes "untitled", ?_, List.all_eq_true.1 hall, by decide⟩
      rw [fileName, if_pos hs]
      simp [show bytes "-" = [45] from rfl]
    · refine ⟨slugify env title, ?_, slugify_all env title, hs⟩
      rw [fileName, if_neg hs]
      simp [show bytes "-" = [45] from rfl]
  have hpos : 0 < slug.length := List.length_pos_iff.2 hne
  have hmd : (bytes ".md").length = 3 := rfl
  rw [hname]
  constructor
  · have hbodyLength : (slug ++ 45 :: id.take 8).length = slug.length + 9 := by
      rw [List.length_append, List.length_cons, hlength]
    have hcut : (slug ++ 45 :: id.take 8 ++ bytes ".md").length - 3 =
        (slug ++ 45 :: id.take 8).length := by
      rw [List.length_append, hmd, Nat.add_sub_cancel]
    have htail : (slug ++ 45 :: id.take 8).drop (slug.length + 9 - 8) = id.take 8 := by
      rw [show slug.length + 9 - 8 = slug.length + 1 by omega, ← List.drop_drop,
        List.drop_left, List.drop_one, List.tail_cons]
    have hdash : (slug ++ 45 :: id.take 8)[slug.length + 9 - 9]? = some 45 := by
      rw [Nat.add_sub_cancel, List.getElem?_append_right (le_refl _), Nat.sub_self]
      rfl
    have hhead : (slug ++ 45 :: id.take 8).take (slug.length + 9 - 9) = slug := by
      rw [Nat.add_sub_cancel, List.take_left]
    rw [isGeneratedName, hcut, List.take_left, List.drop_left]
    simp only [hbodyLength, htail, hdash, hhead, Bool.and_eq_true, Bool.or_eq_true,
      decide_eq_true_eq, List.all_eq_true]
    exact ⟨trivial, Or.inl ⟨⟨⟨by omega, hdigits⟩, trivial⟩, hslug⟩⟩
  · simp only [List.mem_append, List.mem_cons]
    rintro ((hslash | hslash | hslash) | hslash)
    · exact absurd (hslug 47 hslash) (by decide)
    · exact absurd hslash (by decide)
    · exact absurd (hdigits 47 hslash) (by decide)
    · exact absurd hslash (by decide)

/-! ### States -/

/-- Where a run stands, with the variables of `runPerRevision` that it still needs. -/
inductive RunPc
  | idle
  /-- In `fetchAllDocs`. -/
  | fetch (offset : ℕ) (docs : List DocRow)
  /-- Before `ListDocVersionsAfter`. -/
  | versions (docs : List DocRow)
  /-- In the loop over the revisions. -/
  | revisions (docs : List DocRow) (capped : Bool) (rest : List Version) (commits : List Commit)
      (tree : Tree)
  /-- In `ExportAll`, which reads the docs again. -/
  | exportAll (docs : List DocRow) (commits : List Commit) (tree : Tree) (offset : ℕ)
      (again : List DocRow)
  | push (docs : List DocRow) (capped : Bool) (commits : List Commit)
  /-- Failed for the file name of a cursor. -/
  | badName

structure State where
  docs : List DocRow
  versions : List Version
  /-- The docs that have ever been deleted. -/
  everDeleted : List Bytes
  /-- The remote branch, the oldest commit first. -/
  remote : List Commit
  run : RunPc

def activeDocs (s : State) : List DocRow := s.docs.filter fun d => !d.deleted

/-! ### Reads -/

def exportPageSize : ℕ := 1000

/-- `ListAllDocsWithContent`. -/
def listAllDocs (s : State) (offset : ℕ) : List DocRow :=
  (((activeDocs s).insertionSort fun d d' =>
    d'.updatedAt < d.updatedAt ∨ d'.updatedAt = d.updatedAt ∧ d'.id ≤ d.id).drop offset).take
      exportPageSize

/-- One page of `fetchAllDocs`: the docs read so far, and whether they are all. -/
def fetchPage (s : State) (offset : ℕ) (docs : List DocRow) : List DocRow × Bool :=
  let page := listAllDocs s offset
  (docs ++ page, page = [] || (activeDocs s).length ≤ (docs ++ page).length)

/-- `current`, where the last row of an id counts. -/
def current (docs : List DocRow) (id : Bytes) : Option DocRow := lookup DocRow.id docs.reverse id

/-- The exported revision of a doc. -/
def cursorRev (cursors : List Cursor) (id : Bytes) : ℕ :=
  ((lookup Cursor.docID cursors id).map Cursor.rev).getD 0

/-- `ORDER BY created_at, doc_id, rev`. -/
def versionLe (v w : Version) : Prop :=
  v.createdAt < w.createdAt ∨ v.createdAt = w.createdAt ∧
    (v.docID < w.docID ∨ v.docID = w.docID ∧ v.rev ≤ w.rev)

instance : DecidableRel versionLe := fun _ _ => inferInstanceAs (Decidable (_ ∨ _))

instance : IsTrans Version versionLe where
  trans := by
    rintro u v w (huv | ⟨huv, h⟩) (hvw | ⟨hvw, h'⟩)
    · exact Or.inl (by omega)
    · exact Or.inl (by omega)
    · exact Or.inl (by omega)
    · refine Or.inr ⟨by omega, ?_⟩
      rcases h with h | ⟨h, hrev⟩
      · rcases h' with h' | ⟨h', -⟩
        · exact Or.inl (List.lt_trans h h')
        · exact Or.inl (h' ▸ h)
      · rcases h' with h' | ⟨h', hrev'⟩
        · exact Or.inl (h ▸ h')
        · exact Or.inr ⟨h.trans h', by omega⟩

instance : Std.Total versionLe where
  total v w := by
    rcases Nat.lt_trichotomy v.createdAt w.createdAt with h | h | h
    · exact Or.inl (Or.inl h)
    · rcases Std.lt_trichotomy v.docID w.docID with h' | h' | h'
      · exact Or.inl (Or.inr ⟨h, Or.inl h'⟩)
      · rcases Nat.le_total v.rev w.rev with h'' | h''
        · exact Or.inl (Or.inr ⟨h, Or.inr ⟨h', h''⟩⟩)
        · exact Or.inr (Or.inr ⟨h.symm, Or.inr ⟨h'.symm, h''⟩⟩)
      · exact Or.inr (Or.inr ⟨h.symm, Or.inl h'⟩)
    · exact Or.inr (Or.inl h)

/-- The retained revisions of active docs after the exported ones, in the order of creation. -/
def versionsAfter (s : State) (cursors : List Cursor) : List Version :=
  ((s.versions.filter fun v => (activeDocs s).any fun d => d.id = v.docID).insertionSort
    versionLe).filter fun v => cursorRev cursors v.docID < v.rev

/-- `ListDocVersionsAfter`. -/
def listDocVersionsAfter (s : State) (cursors : List Cursor) (limit : ℕ) : List Version :=
  (versionsAfter s cursors).take limit

/-! ### Steps of a run -/

/-- A revision is written, in the file of the doc as it was read. -/
def writeRevision (env : Env) (docs : List DocRow) (tree : Tree) (v : Version) : Option Tree :=
  let d := (current docs v.docID).getD ⟨[], [], 0, [], 0, false⟩
  let name := fileName env d.title d.id
  let old := ((lookup Cursor.docID tree.cursors v.docID).map Cursor.file).getD []
  if old ≠ [] ∧ old ≠ name ∧ (isGeneratedName old = false ∨ 47 ∈ old) then none
  else
    let files :=
      if old ≠ [] ∧ old ≠ name then tree.files.filter (fun f => f.name ≠ old) else tree.files
    some
      { state := some (put Cursor.docID tree.cursors ⟨v.docID, v.rev, name⟩)
        files := put File.name files ⟨name, env.exportContent v.docID v.content⟩ }

/-- The docs are written, each under a name of its own: the files, and the names used so far. -/
def writeDocs (env : Env) : List DocRow → List File → List Bytes → List File × List Bytes
  | [], files, seen => (files, seen)
  | d :: rest, files, seen =>
      let name :=
        if fileName env d.title d.id ∈ seen then d.id ++ bytes ".md" else fileName env d.title d.id
      writeDocs env rest (put File.name files ⟨name, env.exportContent d.id d.content⟩)
        (name :: seen)

/-- `ExportAll` with its `pruneStale`. -/
def exportFiles (env : Env) (docs : List DocRow) (files : List File) : List File :=
  let (written, seen) := writeDocs env docs files []
  written.filter fun f => !isGeneratedName f.name || f.name ∈ seen

/-- The cursors at the end of a run, from the docs that it read first. -/
def finalCursors (env : Env) (docs : List DocRow) (cursors : List Cursor) : List Cursor :=
  putAll Cursor.docID (cursors.filter fun c => (current docs c.docID).isSome)
    (docs.map fun d => ⟨d.id, d.currentVersion, fileName env d.title d.id⟩)

/-! ### The machine -/

inductive Event
  | createDoc (id title content : Bytes) (now : ℕ)
  | saveDoc (id content : Bytes) (now : ℕ)
  | renameDoc (id title : Bytes) (now : ℕ)
  | deleteDocs (ids : List Bytes)
  | restoreDocs (ids : List Bytes)
  /-- `DeleteOldDocVersions`. -/
  | pruneVersions (keep : Version → Bool)
  | begin
  | readPage
  | readVersions
  | commitRevision
  | exportPage
  /-- The push, which may be rejected. -/
  | push (ok : Bool)
  /-- A run fails, and the next one resets the clone. -/
  | abort

/-- A doc and its first revision. -/
def createDoc (s : State) (id title content : Bytes) (now : ℕ) : State :=
  { s with
    docs := s.docs ++ [⟨id, title, 1, content, now, false⟩]
    versions := s.versions ++ [⟨id, 1, content, now⟩] }

/-- A doc is saved, with its next revision. -/
def saveDoc (s : State) (d : DocRow) (content : Bytes) (now : ℕ) : State :=
  { s with
    docs := s.docs.map fun r =>
      if r.id = d.id then
        { r with currentVersion := r.currentVersion + 1, content := content, updatedAt := now }
      else r
    versions := s.versions ++ [⟨d.id, d.currentVersion + 1, content, now⟩] }

/-- **One step of the store or of a run.**  While the remote is empty the clone is not reset, so the
first run is one that is pushed. -/
def next (env : Env) (s : State) : Event → Option State
  | .createDoc id title content now =>
      if isUuid id ∧ ¬ s.docs.any (fun d => d.id = id) then some (createDoc s id title content now)
      else none
  | .saveDoc id content now =>
      match lookup DocRow.id (activeDocs s) id with
      | some d =>
          if s.versions.all fun v => v.docID ≠ id || v.createdAt ≤ now then
            some (saveDoc s d content now)
          else none
      | none => none
  | .renameDoc id title now =>
      some { s with docs := s.docs.map fun d =>
        if d.id = id ∧ d.deleted = false then { d with title := title, updatedAt := now } else d }
  | .deleteDocs ids =>
      some { s with
        docs := s.docs.map fun d => if d.id ∈ ids then { d with deleted := true } else d
        everDeleted := s.everDeleted ++ (s.docs.filter fun d => d.id ∈ ids).map DocRow.id }
  | .restoreDocs ids =>
      some { s with
        docs := s.docs.map fun d => if d.id ∈ ids then { d with deleted := false } else d }
  | .pruneVersions keep => some { s with versions := s.versions.filter keep }
  | .begin =>
      match s.run with
      | .idle => some { s with run := .fetch 0 [] }
      | _ => none
  | .readPage =>
      match s.run with
      | .fetch offset docs =>
          let (docs, complete) := fetchPage s offset docs
          let run :=
            if complete then
              if (headTree s.remote).state = none then
                .exportAll docs [] (headTree s.remote) 0 []
              else .versions docs
            else .fetch (offset + exportPageSize) docs
          some { s with run := run }
      | _ => none
  | .readVersions =>
      match s.run with
      | .versions docs =>
          let tree := headTree s.remote
          let versions := listDocVersionsAfter s tree.cursors env.maxRevisionsPerRun
          let capped := decide (versions.length = env.maxRevisionsPerRun)
          some { s with run := .revisions docs capped versions [] tree }
      | _ => none
  | .commitRevision =>
      match s.run with
      | .revisions docs capped (v :: rest) commits tree =>
          match writeRevision env docs tree v with
          | some tree' =>
              let made := commitWith (s.remote ++ commits) tree' (some (v.docID, v.rev))
              some { s with run := .revisions docs capped rest (commits ++ made) tree' }
          | none => some { s with run := .badName }
      | .revisions docs capped [] commits tree =>
          if capped then some { s with run := .push docs capped commits }
          else some { s with run := .exportAll docs commits tree 0 [] }
      | _ => none
  | .exportPage =>
      match s.run with
      | .exportAll docs commits tree offset again =>
          let (again, complete) := fetchPage s offset again
          if complete then
            let tree' : Tree :=
              ⟨some (finalCursors env docs tree.cursors), exportFiles env again tree.files⟩
            let made := commitWith (s.remote ++ commits) tree' none
            some { s with run := .push docs false (commits ++ made) }
          else
            some { s with run := .exportAll docs commits tree (offset + exportPageSize) again }
      | _ => none
  | .push ok =>
      match s.run with
      | .push _ _ commits =>
          if ok then some { s with remote := s.remote ++ commits, run := .idle }
          else if s.remote = [] then none
          else some { s with run := .idle }
      | _ => none
  | .abort =>
      if s.remote = [] then none
      else some { s with run := .idle }

/-- Runs of the export, and docs that change in between. -/
def exportMachine (env : Env) : Machine State Event where
  init s := s.docs = [] ∧ s.versions = [] ∧ s.everDeleted = [] ∧ s.remote = [] ∧ s.run = .idle
  step s ev t := next env s ev = some t

end WiseLabz.DocExport
