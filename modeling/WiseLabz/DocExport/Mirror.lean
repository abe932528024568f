/-
**The export directory and the docs.**

A run reads the docs page by page, the last updated ones first, while they are created, saved and
deleted.  A doc that is saved between two pages moves to the front: it is not read at all, and the
last doc of the page before is read again.  What is read is written, and every other file of a doc
is removed.

Main definitions:

* `DocMirror.fetchAllDocs` — the pages of a run, each of the table at its time;
* `DocMirror.assign` — the names that the docs are written under;
* `DocMirror.Stable` — a doc that is there for the whole run, with one title;
* `DocMirror.Mirrored` — it has one file, with a content that it had;
* `DocMirror.Covered` — it is read once, or its name was taken;
* `DocMirror.exportContent` — what is written of a doc's content.

Main results:

* `DocMirror.fetchAllDocs_eq` — what a run reads;
* `DocMirror.mirror_iff` — **when the directory mirrors the docs**;
* `DocMirror.saved_doc_removed` — a doc that is saved may lose its file.
-/

import WiseLabz.DocExport.Git
import WiseLabz.Doc.LabTopology
import Mathlib.Tactic.Common

set_option relaxedAutoImplicit false
set_option autoImplicit false

namespace WiseLabz.DocMirror

open Lib DocExport

/-! ### Reads -/

def active (docs : List DocRow) : List DocRow := docs.filter fun d => !d.deleted

/-- `ListAllDocsWithContent` -/
def listAllDocsWithContent (docs : List DocRow) (offset limit : ℕ) : List DocRow :=
  (((active docs).insertionSort fun d d' =>
    d'.updatedAt < d.updatedAt ∨ d'.updatedAt = d.updatedAt ∧ d'.id ≤ d.id).drop offset).take limit

/-- The `i`th page of a run: it is counted in one table, and read in the next. -/
def page (size : ℕ) (tables : ℕ → List DocRow) (i : ℕ) : List DocRow :=
  listAllDocsWithContent (tables (2 * i + 1)) (i * size) size

/-- `fetchAllDocs`: the docs, and the number of the last page; nothing if the run is not over when
the fuel is. -/
def fetchAllDocs (size : ℕ) (tables : ℕ → List DocRow) :
    ℕ → ℕ → List DocRow → Option (List DocRow × ℕ)
  | 0, _, _ => none
  | fuel + 1, i, docs =>
      if page size tables i = [] then some (docs, i)
      else if (active (tables (2 * i))).length ≤ (docs ++ page size tables i).length then
        some (docs ++ page size tables i, i)
      else fetchAllDocs size tables fuel (i + 1) (docs ++ page size tables i)

/-- The docs of the pages up to one. -/
def listed (size : ℕ) (tables : ℕ → List DocRow) (n : ℕ) : List DocRow :=
  (List.range (n + 1)).flatMap (page size tables)

theorem fetchAllDocs_loop {size : ℕ} {tables : ℕ → List DocRow} {fuel i n : ℕ}
    {docs docs' : List DocRow} (h : fetchAllDocs size tables fuel i docs = some (docs', n)) :
    i ≤ n ∧ docs' = docs ++ (List.range' i (n + 1 - i)).flatMap (page size tables) := by
  induction fuel generalizing i docs with
  | zero => cases h
  | succ fuel ih =>
      rw [fetchAllDocs] at h
      split at h
      · next hnil =>
          obtain ⟨rfl, rfl⟩ := Prod.mk.inj (Option.some.inj h)
          rw [Nat.add_sub_cancel_left]
          exact ⟨le_rfl, by simp [hnil]⟩
      · split at h
        · obtain ⟨rfl, rfl⟩ := Prod.mk.inj (Option.some.inj h)
          rw [Nat.add_sub_cancel_left]
          exact ⟨le_rfl, by simp⟩
        · obtain ⟨hle, rfl⟩ := ih h
          refine ⟨by omega, ?_⟩
          rw [show n + 1 - i = n + 1 - (i + 1) + 1 by omega, List.range'_succ,
            List.flatMap_cons, List.append_assoc]

/-- **What a run reads.** -/
theorem fetchAllDocs_eq {size : ℕ} {tables : ℕ → List DocRow} {fuel n : ℕ} {docs : List DocRow}
    (h : fetchAllDocs size tables fuel 0 [] = some (docs, n)) : docs = listed size tables n := by
  rw [(fetchAllDocs_loop h).2, List.nil_append, listed, List.range_eq_range', Nat.sub_zero]

theorem mem_listed {size : ℕ} {tables : ℕ → List DocRow} {n : ℕ} {d : DocRow}
    (h : d ∈ listed size tables n) : ∃ i ≤ n, d ∈ active (tables (2 * i + 1)) := by
  obtain ⟨i, hi, hd⟩ := List.mem_flatMap.1 h
  refine ⟨i, Nat.lt_succ_iff.1 (List.mem_range.1 hi), ?_⟩
  exact List.mem_insertionSort _ |>.1 (List.mem_of_mem_drop (List.mem_of_mem_take hd))

/-! ### Names -/

section Names

variable (env : Env)

/-- The file of a doc whose name is taken. -/
def fallbackName (id : Bytes) : Bytes := id ++ bytes ".md"

/-- The name that a doc is written under, after others. -/
def chosenName (seen : List Bytes) (d : DocRow) : Bytes :=
  if fileName env d.title d.id ∈ seen then fallbackName d.id else fileName env d.title d.id

/-- The names that the docs are written under. -/
def assign : List DocRow → List Bytes → List (DocRow × Bytes)
  | [], _ => []
  | d :: rest, seen => (d, chosenName env seen d) :: assign rest (chosenName env seen d :: seen)

def written (a : DocRow × Bytes) : File := ⟨a.2, env.exportContent a.1.id a.1.content⟩

/-- The names after some docs. -/
def seenAfter (docs : List DocRow) (seen : List Bytes) : List Bytes :=
  ((assign env docs seen).map Prod.snd).reverse ++ seen

variable {env}

theorem seenAfter_cons (d : DocRow) (rest : List DocRow) (seen : List Bytes) :
    seenAfter env (d :: rest) seen = seenAfter env rest (chosenName env seen d :: seen) := by
  rw [seenAfter, seenAfter, assign, List.map_cons, List.reverse_cons, List.append_assoc]
  rfl

theorem writeDocs_eq (docs : List DocRow) (files : List File) (seen : List Bytes) :
    writeDocs env docs files seen =
      (putAll File.name files ((assign env docs seen).map (written env)),
        seenAfter env docs seen) := by
  induction docs generalizing files seen with
  | nil => rfl
  | cons d rest ih =>
      have hstep : writeDocs env (d :: rest) files seen =
        writeDocs env rest (put File.name files (written env (d, chosenName env seen d)))
          (chosenName env seen d :: seen) := rfl
      rw [hstep, ih, seenAfter_cons]
      rfl

/-- A UUID does not end like the file of a doc. -/
theorem fileName_ne_fallbackName (title : Bytes) {id id' : Bytes} (h : isUuid id = true)
    (h' : isUuid id' = true) : fileName env title id ≠ fallbackName id' := by
  intro heq
  obtain ⟨hlength, -⟩ := take_of_isUuid h
  rw [fileName, fallbackName] at heq
  have hbody := List.append_cancel_right heq
  generalize (if slugify env title = [] then bytes "untitled" else slugify env title) = slug
    at hbody
  simp only [isUuid, Bool.and_eq_true, decide_eq_true_eq, List.all_eq_true, List.mem_range] at h'
  obtain ⟨hlen', hall⟩ := h'
  have hdigit := hall 27 (by decide)
  have hslug : slug.length = 27 := by
    have hlen := congrArg List.length hbody
    rw [List.length_append, List.length_append, hlength, hlen',
      show (bytes "-").length = 1 from rfl] at hlen
    omega
  rw [if_neg (by decide), ← hbody, List.append_assoc, List.getElem?_append_right hslug.le, hslug]
    at hdigit
  cases hdigit

theorem chosenName_cases (seen : List Bytes) (d : DocRow) :
    chosenName env seen d = fileName env d.title d.id ∨
      chosenName env seen d = fallbackName d.id := by
  unfold chosenName
  split
  · exact .inr rfl
  · exact .inl rfl

/-- The rows that are written, and their names. -/
theorem mem_assign {docs : List DocRow} {seen : List Bytes} {a : DocRow × Bytes}
    (h : a ∈ assign env docs seen) :
    a.1 ∈ docs ∧ (a.2 = fileName env a.1.title a.1.id ∨ a.2 = fallbackName a.1.id) := by
  induction docs generalizing seen with
  | nil => cases h
  | cons d rest ih =>
      rcases List.mem_cons.1 h with rfl | h
      · exact ⟨List.mem_cons_self, chosenName_cases seen d⟩
      · obtain ⟨hmem, hname⟩ := ih h
        exact ⟨List.mem_cons_of_mem _ hmem, hname⟩

theorem exists_mem_assign {docs : List DocRow} (seen : List Bytes) {d : DocRow} (h : d ∈ docs) :
    ∃ name, (d, name) ∈ assign env docs seen := by
  induction docs generalizing seen with
  | nil => cases h
  | cons d' rest ih =>
      rcases List.mem_cons.1 h with rfl | h
      · exact ⟨_, List.mem_cons_self⟩
      · obtain ⟨name, hname⟩ := ih (chosenName env seen d' :: seen) h
        exact ⟨name, List.mem_cons_of_mem _ hname⟩

theorem assign_append (docs docs' : List DocRow) (seen : List Bytes) :
    assign env (docs ++ docs') seen =
      assign env docs seen ++ assign env docs' (seenAfter env docs seen) := by
  induction docs generalizing seen with
  | nil => rfl
  | cons d rest ih =>
      rw [List.cons_append, assign, assign, ih, seenAfter_cons]
      rfl

/-- A doc of a name that is taken has the other name. -/
theorem eq_fallbackName {docs : List DocRow} {seen : List Bytes} {a : DocRow × Bytes}
    (h : a ∈ assign env docs seen) (htaken : fileName env a.1.title a.1.id ∈ seen) :
    a.2 = fallbackName a.1.id := by
  induction docs generalizing seen with
  | nil => cases h
  | cons d rest ih =>
      rcases List.mem_cons.1 h with rfl | h
      · exact if_pos htaken
      · exact ih h (List.mem_cons_of_mem _ htaken)

/-- The name of a doc is taken when the doc is written. -/
theorem fileName_mem_seenAfter {docs : List DocRow} {seen : List Bytes} {d : DocRow}
    (h : d ∈ docs) : fileName env d.title d.id ∈ seenAfter env docs seen := by
  induction docs generalizing seen with
  | nil => cases h
  | cons d' rest ih =>
      rw [seenAfter_cons]
      rcases List.mem_cons.1 h with rfl | h
      · refine List.mem_append_right _ ?_
        by_cases htaken : fileName env d.title d.id ∈ seen
        · exact List.mem_cons_of_mem _ htaken
        · rw [chosenName, if_neg htaken]
          exact List.mem_cons_self
      · exact ih h

theorem mem_seenAfter {docs : List DocRow} {seen : List Bytes} {name : Bytes} :
    name ∈ seenAfter env docs seen ↔
      (∃ a ∈ assign env docs seen, a.2 = name) ∨ name ∈ seen := by
  rw [seenAfter, List.mem_append, List.mem_reverse, List.mem_map]

section Uuids

variable {docs : List DocRow} (huuid : ∀ d ∈ docs, isUuid d.id = true)

include huuid

/-- Names that are taken are names of docs. -/
theorem exists_of_fileName_mem {title id : Bytes} (hid : isUuid id = true)
    (h : fileName env title id ∈ seenAfter env docs []) :
    ∃ r ∈ docs, fileName env r.title r.id = fileName env title id := by
  rcases mem_seenAfter.1 h with ⟨a, ha, heq⟩ | h
  · obtain ⟨hmem, hname | hname⟩ := mem_assign ha
    · exact ⟨a.1, hmem, hname.symm.trans heq⟩
    · exact absurd (heq.symm.trans hname) (fileName_ne_fallbackName title hid (huuid _ hmem))
  · cases h

/-- **Docs that are written under one name** are one doc. -/
theorem id_eq_of_name_eq {seen : List Bytes} {a b : DocRow × Bytes}
    (ha : a ∈ assign env docs seen) (hb : b ∈ assign env docs seen) (h : a.2 = b.2) :
    a.1.id = b.1.id := by
  -- the first of two docs of a name takes it
  have hhead : ∀ (d : DocRow) (rest : List DocRow) (seen : List Bytes) (c : DocRow × Bytes),
      isUuid d.id = true → (∀ r ∈ rest, isUuid r.id = true) →
      c ∈ assign env rest (chosenName env seen d :: seen) → c.2 = chosenName env seen d →
        c.1.id = d.id := by
    intro d rest seen c hd hrest hc heq
    obtain ⟨hmem, hname | hname⟩ := mem_assign hc
    · have htaken : fileName env c.1.title c.1.id ∈ chosenName env seen d :: seen :=
        hname ▸ heq ▸ List.mem_cons_self
      exact absurd (hname.symm.trans (eq_fallbackName hc htaken))
        (fileName_ne_fallbackName _ (hrest _ hmem) (hrest _ hmem))
    · have hcases : chosenName env seen d = fileName env d.title d.id ∨
          chosenName env seen d = fallbackName d.id := chosenName_cases seen d
      rcases hcases with hd' | hd'
      · exact absurd (hd'.symm.trans (heq.symm.trans hname))
          (fileName_ne_fallbackName _ hd (hrest _ hmem))
      · exact List.append_cancel_right (hname.symm.trans (heq.trans hd'))
  induction docs generalizing seen with
  | nil => cases ha
  | cons d rest ih =>
      have hd := huuid d List.mem_cons_self
      have hrest : ∀ r ∈ rest, isUuid r.id = true := fun r hr => huuid r (List.mem_cons_of_mem _ hr)
      rcases List.mem_cons.1 ha with rfl | ha
      · rcases List.mem_cons.1 hb with rfl | hb
        · rfl
        · exact (hhead d rest seen b hd hrest hb h.symm).symm
      · rcases List.mem_cons.1 hb with rfl | hb
        · exact hhead d rest seen a hd hrest ha h
        · exact ih hrest ha hb

end Uuids

/-- **The names of docs are generated ones**, which a later run may remove. -/
theorem fallbackName_generated {id : Bytes} (h : isUuid id = true) :
    isGeneratedName (fallbackName id) = true := by
  have hlen : (id ++ bytes ".md").length - 3 = id.length := by
    rw [List.length_append]
    exact Nat.add_sub_cancel _ _
  rw [fallbackName, isGeneratedName, hlen, List.take_left, List.drop_left, h]
  simp

/-! ### The directory -/

section Directory

variable {docs : List DocRow} {files : List File}

theorem exportFiles_eq (docs : List DocRow) (files : List File) :
    exportFiles env docs files =
      (putAll File.name files ((assign env docs []).map (written env))).filter fun f =>
        !isGeneratedName f.name || f.name ∈ seenAfter env docs [] := by
  rw [exportFiles, writeDocs_eq]

theorem lookup_exportFiles (hfiles : KeyNodup File.name files) (name : Bytes) :
    lookup File.name (exportFiles env docs files) name =
      ((lookup File.name ((assign env docs []).map (written env)).reverse name).or
        (lookup File.name files name)).filter fun f =>
          !isGeneratedName f.name || f.name ∈ seenAfter env docs [] := by
  rw [exportFiles_eq, (hfiles.putAll _).lookup_filter, lookup_putAll_reverse]

/-- **A file that is written** is there after the run, as it was written last. -/
theorem lookup_of_mem_assign (hfiles : KeyNodup File.name files) {a : DocRow × Bytes}
    (ha : a ∈ assign env docs []) :
    ∃ b ∈ assign env docs [], b.2 = a.2 ∧
      lookup File.name (exportFiles env docs files) a.2 = some (written env b) := by
  have hsome : (lookup File.name ((assign env docs []).map (written env)).reverse a.2).isSome :=
    lookup_isSome.2 ⟨written env a, List.mem_reverse.2 (List.mem_map_of_mem ha), rfl⟩
  obtain ⟨f, hf⟩ := Option.isSome_iff_exists.1 hsome
  obtain ⟨hmem, hname⟩ := lookup_eq_some hf
  obtain ⟨b, hb, rfl⟩ := List.mem_map.1 (List.mem_reverse.1 hmem)
  refine ⟨b, hb, hname, ?_⟩
  rw [lookup_exportFiles hfiles, hf, Option.some_or]
  have hseen : (written env b).name ∈ seenAfter env docs [] := mem_seenAfter.2 (.inl ⟨b, hb, rfl⟩)
  rw [Option.filter_some, if_pos]
  rw [decide_eq_true hseen, Bool.or_true]

/-- A file that no run writes is left. -/
theorem lookup_of_not_generated (huuid : ∀ d ∈ docs, isUuid d.id = true)
    (hfiles : KeyNodup File.name files) {name : Bytes} (h : isGeneratedName name = false) :
    lookup File.name (exportFiles env docs files) name = lookup File.name files name := by
  have hnone : lookup File.name ((assign env docs []).map (written env)).reverse name = none := by
    rw [lookup_eq_none]
    intro f hf hname
    obtain ⟨a, ha, rfl⟩ := List.mem_map.1 (List.mem_reverse.1 hf)
    obtain ⟨hmem, heq⟩ := mem_assign ha
    have hgenerated : isGeneratedName a.2 = true := by
      rcases heq with heq | heq <;> rw [heq]
      · exact (fileName_generated env _ (huuid _ hmem)).1
      · exact fallbackName_generated (huuid _ hmem)
    rw [show a.2 = name from hname, h] at hgenerated
    cases hgenerated
  rw [lookup_exportFiles hfiles, hnone, Option.none_or]
  cases hlookup : lookup File.name files name with
  | none => rfl
  | some f =>
      rw [Option.filter_some, if_pos]
      rw [(lookup_eq_some hlookup).2, h]
      rfl

/-- **Every other file of a doc is removed.** -/
theorem exists_of_mem_exportFiles {f : File} (hf : f ∈ exportFiles env docs files)
    (h : isGeneratedName f.name = true) : ∃ a ∈ assign env docs [], f.name = a.2 := by
  rw [exportFiles_eq, List.mem_filter, h, Bool.not_true, Bool.false_or, decide_eq_true_iff,
    mem_seenAfter] at hf
  rcases hf.2 with ⟨a, ha, heq⟩ | hnil
  · exact ⟨a, ha, heq.symm⟩
  · cases hnil

end Directory

end Names

/-! ### Docs that are there for the whole run -/

/-- A doc is active, with one title, in every table of the run. -/
def Stable (tables : ℕ → List DocRow) (n : ℕ) (id title : Bytes) : Prop :=
  ∀ j ≤ 2 * n + 1, ∃ d ∈ active (tables j), d.id = id ∧ d.title = title

/-- **A doc has one file**: it is written, and always under one name, and after the run the file
holds a content that the doc had. -/
def Mirrored (env : Env) (tables : ℕ → List DocRow) (n : ℕ) (docs : List DocRow)
    (files : List File) (id : Bytes) : Prop :=
  ∃ name, (∃ a ∈ assign env docs [], a.1.id = id) ∧
    (∀ a ∈ assign env docs [], a.1.id = id → a.2 = name) ∧
    ∃ j ≤ 2 * n + 1, ∃ d ∈ active (tables j), d.id = id ∧
      lookup File.name (exportFiles env docs files) name =
        some ⟨name, env.exportContent id d.content⟩

/-- **A doc is read once**, or another doc had taken its name. -/
def Covered (env : Env) (docs : List DocRow) (id title : Bytes) : Prop :=
  ∃ pre d rest, docs = pre ++ d :: rest ∧ d.id = id ∧ (∀ r ∈ pre, r.id ≠ id) ∧
    ((∀ r ∈ rest, r.id ≠ id) ∨ ∃ r ∈ pre, fileName env r.title r.id = fileName env title id)

section Run

variable {env : Env} {size n : ℕ} {tables : ℕ → List DocRow} {files : List File} {id title : Bytes}

/-- What is read of a doc is a row of it. -/
theorem Stable.row (h : Stable tables n id title) (hnodup : ∀ j, KeyNodup DocRow.id (tables j))
    {r : DocRow} (hr : r ∈ listed size tables n) (hid : r.id = id) :
    r.title = title ∧ ∃ j ≤ 2 * n + 1, r ∈ active (tables j) := by
  obtain ⟨i, hi, hmem⟩ := mem_listed hr
  obtain ⟨d, hd, hdid, hdtitle⟩ := h (2 * i + 1) (by omega)
  have heq : r = d := (hnodup _).eq_of_key (List.mem_of_mem_filter hmem)
    (List.mem_of_mem_filter hd) (hid.trans hdid.symm)
  exact ⟨heq ▸ hdtitle, 2 * i + 1, by omega, hmem⟩

theorem isUuid_of_listed (huuid : ∀ j, ∀ d ∈ tables j, isUuid d.id = true) {d : DocRow}
    (hd : d ∈ listed size tables n) : isUuid d.id = true := by
  obtain ⟨i, -, hmem⟩ := mem_listed hd
  exact huuid _ d (List.mem_of_mem_filter hmem)

theorem mirrored_iff (huuid : ∀ j, ∀ d ∈ tables j, isUuid d.id = true)
    (hnodup : ∀ j, KeyNodup DocRow.id (tables j)) (hfiles : KeyNodup File.name files)
    (h : Stable tables n id title) :
    Mirrored env tables n (listed size tables n) files id ↔
      Covered env (listed size tables n) id title := by
  have hids : ∀ d ∈ listed size tables n, isUuid d.id = true :=
    fun d hd => isUuid_of_listed huuid hd
  have hrow : ∀ r ∈ listed size tables n, r.id = id →
      fileName env r.title r.id = fileName env title id ∧ isUuid id = true := by
    intro r hr hid
    have htitle := (h.row hnodup hr hid).1
    exact ⟨by rw [htitle, hid], hid ▸ hids r hr⟩
  constructor
  · rintro ⟨name, ⟨a, ha, hid⟩, hall, -⟩
    have hsome : ((listed size tables n).find? fun d => d.id = id).isSome := by
      rw [List.find?_isSome]
      exact ⟨a.1, (mem_assign ha).1, by simpa using hid⟩
    obtain ⟨d, hd⟩ := Option.isSome_iff_exists.1 hsome
    obtain ⟨hdid, pre, rest, hlisted, hpre⟩ := List.find?_eq_some_iff_append.1 hd
    have hdid : d.id = id := by simpa using hdid
    refine ⟨pre, d, rest, hlisted, hdid, fun r hr => by simpa using hpre r hr, ?_⟩
    by_contra hno
    obtain ⟨hrest, hfree⟩ := not_or.1 hno
    obtain ⟨r, hr, hrid⟩ : ∃ r ∈ rest, r.id = id := by simpa using hrest
    -- the first row takes the name, and the next one finds it taken
    rw [hlisted] at hids hrow hall
    obtain ⟨hdname, huid⟩ := hrow d (by simp) hdid
    obtain ⟨hrname, -⟩ := hrow r (by simp [hr]) hrid
    have hnot : fileName env d.title d.id ∉ seenAfter env pre [] := by
      rw [hdname]
      exact fun hmem => hfree (exists_of_fileName_mem (fun x hx => hids x (by simp [hx])) huid hmem)
    have hchosen : chosenName env (seenAfter env pre []) d = fileName env d.title d.id :=
      if_neg hnot
    rw [assign_append, assign, hchosen] at hall
    have hfirst := hall (d, fileName env d.title d.id) (by simp) hdid
    obtain ⟨name', hname'⟩ : ∃ name', (r, name') ∈
        assign env rest (fileName env d.title d.id :: seenAfter env pre []) :=
      exists_mem_assign _ hr
    have hsecond := hall (r, name') (by simp [hname']) hrid
    have htaken := eq_fallbackName hname' (by
      rw [show fileName env (r, name').1.title (r, name').1.id = fileName env d.title d.id from
        hrname.trans hdname.symm]
      exact List.mem_cons_self)
    exact fileName_ne_fallbackName _ (hids d (by simp)) (hids r (by simp [hr]))
      (hfirst.trans (hsecond.symm.trans htaken))
  · rintro ⟨pre, d, rest, hlisted, hdid, hpre, hcase⟩
    have hmem : (d, chosenName env (seenAfter env pre []) d) ∈
        assign env (listed size tables n) [] := by
      rw [hlisted, assign_append, assign]
      simp
    refine ⟨chosenName env (seenAfter env pre []) d, ⟨_, hmem, hdid⟩, fun a ha hid => ?_, ?_⟩
    · have hafter := ha
      rw [hlisted, assign_append, assign, List.mem_append, List.mem_cons] at hafter
      rcases hafter with hafter | rfl | hafter
      · exact absurd hid (hpre _ (mem_assign hafter).1)
      · rfl
      · rcases hcase with honce | ⟨r, hr, hname⟩
        · exact absurd hid (honce _ (mem_assign hafter).1)
        · have htaken : fileName env title id ∈ seenAfter env pre [] :=
            hname ▸ fileName_mem_seenAfter hr
          have hd := (hrow d (by rw [hlisted]; simp) hdid).1
          have ha' := (hrow a.1 (mem_assign ha).1 hid).1
          rw [chosenName, if_pos (hd ▸ htaken), hdid, ← hid]
          exact eq_fallbackName hafter (ha' ▸ List.mem_cons_of_mem _ htaken)
    · obtain ⟨b, hb, hname, hlookup⟩ := lookup_of_mem_assign hfiles hmem
      have hbid : b.1.id = id := (id_eq_of_name_eq hids hb hmem hname).trans hdid
      obtain ⟨-, j, hj, hrow⟩ := h.row hnodup (mem_assign hb).1 hbid
      refine ⟨j, hj, b.1, hrow, hbid, hlookup.trans ?_⟩
      rw [written, hname, hbid]

/-- **When the directory mirrors the docs**: every doc that is there for the whole run has one file
if and only if it is read once, or its name was taken.  In any case the other files of docs are
removed, and no file that a run would not write is touched. -/
theorem mirror_iff (env : Env) {size fuel n : ℕ} {tables : ℕ → List DocRow} {docs : List DocRow}
    {files : List File} (huuid : ∀ j, ∀ d ∈ tables j, isUuid d.id = true)
    (hnodup : ∀ j, KeyNodup DocRow.id (tables j)) (hfiles : KeyNodup File.name files)
    (hrun : fetchAllDocs size tables fuel 0 [] = some (docs, n)) :
    (∀ id title, Stable tables n id title →
      (Mirrored env tables n docs files id ↔ Covered env (listed size tables n) id title)) ∧
    (∀ f ∈ exportFiles env docs files, isGeneratedName f.name = true →
      ∃ a ∈ assign env docs [], f.name = a.2) ∧
    (∀ name, isGeneratedName name = false →
      lookup File.name (exportFiles env docs files) name = lookup File.name files name) ∧
    ∀ title id, isUuid id = true → isGeneratedName (fileName env title id) = true ∧
      isGeneratedName (fallbackName id) = true := by
  obtain rfl := fetchAllDocs_eq hrun
  have hids : ∀ d ∈ listed size tables n, isUuid d.id = true :=
    fun d hd => isUuid_of_listed huuid hd
  exact ⟨fun id title h => mirrored_iff huuid hnodup hfiles h,
    fun f hf h => exists_of_mem_exportFiles hf h,
    fun name h => lookup_of_not_generated hids hfiles h,
    fun title id h => ⟨(fileName_generated env title h).1, fallbackName_generated h⟩⟩

end Run

/-! ### What is written of a doc -/

/-- A row of `doc_attachments`. -/
structure DocAttachment where
  id : Bytes
  docID : Bytes
  sha256 : Bytes
  contentType : Bytes
  size : ℕ

/-- The settings for attachments; a Git export leaves out large ones. -/
structure Exporter where
  includeAttachments : Bool
  maxAttachmentBytes : ℕ
  git : Bool

/-- `blobstore.Extension` -/
def extension (ct : Bytes) : Bytes :=
  let ct := ct.takeWhile (· ≠ 59)
  if ct = bytes "image/png" then bytes ".png"
  else if ct = bytes "image/jpeg" then bytes ".jpg"
  else if ct = bytes "image/gif" then bytes ".gif"
  else if ct = bytes "image/webp" then bytes ".webp"
  else if ct = bytes "application/pdf" then bytes ".pdf"
  else bytes ".txt"

/-- The path that an attachment of the doc is exported to. -/
def attachmentPath (e : Exporter) (attachments : List DocAttachment) (docID id : Bytes) :
    Option Bytes :=
  (attachments.find? fun a => (docID = [] || a.docID = docID) &&
    !(e.git && e.maxAttachmentBytes < a.size) && a.id = id).map fun a =>
      bytes "attachments/" ++ a.sha256 ++ extension a.contentType

def isLinkChar (b : UInt8) : Bool :=
  (97 ≤ b && b ≤ 122) || (65 ≤ b && b ≤ 90) || (48 ≤ b && b ≤ 57) || b = 45

/-- The links `attachment:…` from left to right, each replaced by the path of its attachment, if it
has one; a link is not empty, so the length of the content is fuel enough. -/
def replaceLinks (path : Bytes → Option Bytes) : ℕ → Bytes → Bytes
  | 0, s => s
  | _ + 1, [] => []
  | fuel + 1, b :: s =>
      match stripPrefix (bytes "attachment:") (b :: s) with
      | none => b :: replaceLinks path fuel s
      | some rest =>
          let id := rest.takeWhile isLinkChar
          if id = [] then b :: replaceLinks path fuel s
          else (path id).getD (bytes "attachment:" ++ id) ++
            replaceLinks path fuel (rest.dropWhile isLinkChar)

/-- `exportContent`, where the files of the attachments can be copied. -/
def exportContent (e : Exporter) (attachments : List DocAttachment) (docID content : Bytes) :
    Bytes :=
  let content := Doc.stripMarkers content
  if e.includeAttachments then
    replaceLinks (attachmentPath e attachments docID) content.length content
  else content

/-! ### Two docs -/

def exportEnv (attachments : List DocAttachment) : Env where
  maxRevisionsPerRun := 1
  maxRevisionsPerRun_pos := Nat.one_pos
  toLower s := s.map fun b => if 65 ≤ b ∧ b ≤ 90 then b + 32 else b
  exportContent := exportContent ⟨true, 10 * 2 ^ 20, false⟩ attachments

def idA : Bytes := bytes "aaaaaaaa-0000-4000-8000-000000000000"

def idB : Bytes := bytes "bbbbbbbb-0000-4000-8000-000000000000"

/-- Two docs. -/
def twoDocs : List DocRow :=
  [⟨idA, bytes "a", 1, bytes "old", 1, false⟩, ⟨idB, bytes "b", 1, bytes "b", 2, false⟩]

/-- The first one is saved. -/
def savedDocs : List DocRow :=
  [⟨idA, bytes "a", 2, bytes "new", 3, false⟩, ⟨idB, bytes "b", 1, bytes "b", 2, false⟩]

def pictureOfA : DocAttachment := ⟨bytes "p1", idA, bytes "00", bytes "image/png", 4⟩

/-- A generated doc with a picture, and a note that is saved: the rows before and after. -/
def savedNote (content : Bytes) (rev updatedAt : ℕ) : List DocRow :=
  [⟨idA, bytes "Box A", 1, bytes "<!-- wl:gen key=\"a\" h=\"0123456789ab\" -->\n" ++
      bytes "![](attachment:p1)\n<!-- /wl:gen -->\n", 1, false⟩,
    ⟨idB, bytes "Note", rev, content, updatedAt, false⟩]

/-- The note is saved after the first page is read, on which it is. -/
def savedNoteTables (j : ℕ) : List DocRow :=
  if j ≤ 1 then savedNote (bytes "b") 1 2 else savedNote (bytes "c") 2 3

/-- The directory has a file of a doc that is gone, and one of somebody else. -/
def oldDirectory : List File :=
  [⟨bytes "gone-cccccccc.md", bytes "x"⟩, ⟨bytes "README.md", bytes "y"⟩]

/-- Both docs are mirrored, and of the other files the one of a doc is removed. -/
theorem mirror_twoDocs :
    ∃ docs, fetchAllDocs 1 savedNoteTables 2 0 [] = some (docs, 1) ∧
      Mirrored (exportEnv [pictureOfA]) savedNoteTables 1 docs oldDirectory idA ∧
      Mirrored (exportEnv [pictureOfA]) savedNoteTables 1 docs oldDirectory idB ∧
      exportFiles (exportEnv [pictureOfA]) docs oldDirectory =
        [⟨bytes "README.md", bytes "y"⟩, ⟨bytes "note-bbbbbbbb.md", bytes "b"⟩,
          ⟨bytes "box-a-aaaaaaaa.md", bytes "![](attachments/00.png)\n"⟩] := by
  have huuid : ∀ j, ∀ d ∈ savedNoteTables j, isUuid d.id = true := by
    intro j
    unfold savedNoteTables
    split <;> decide
  have hnodup : ∀ j, KeyNodup DocRow.id (savedNoteTables j) := by
    intro j
    unfold savedNoteTables
    split <;> decide
  have hrun : fetchAllDocs 1 savedNoteTables 2 0 [] =
      some ((savedNote (bytes "b") 1 2).reverse, 1) := rfl
  have hstable : ∀ id title,
      ((savedNote (bytes "b") 1 2).any fun d => d.id = id ∧ d.title = title) →
      ((savedNote (bytes "c") 2 3).any fun d => d.id = id ∧ d.title = title) →
        Stable savedNoteTables 1 id title := by
    intro id title hbefore hafter j _
    have hactive : ∀ content rev updatedAt,
        active (savedNote content rev updatedAt) = savedNote content rev updatedAt :=
      fun _ _ _ => rfl
    unfold savedNoteTables
    split
    · simpa [hactive] using hbefore
    · simpa [hactive] using hafter
  have hmirror := (mirror_iff (exportEnv [pictureOfA]) huuid hnodup
    (show KeyNodup File.name oldDirectory by decide) hrun).1
  have hlisted : listed 1 savedNoteTables 1 = (savedNote (bytes "b") 1 2).reverse := rfl
  rw [hlisted] at hmirror
  refine ⟨_, hrun, (hmirror idA (bytes "Box A") (hstable _ _ (by decide) (by decide))).2 ?_,
    (hmirror idB (bytes "Note") (hstable _ _ (by decide) (by decide))).2 ?_, by decide +kernel⟩
  · exact ⟨[_], _, [], rfl, rfl, by decide, Or.inl (by simp)⟩
  · exact ⟨[], _, [_], rfl, rfl, by simp, Or.inl (by decide)⟩

/-- **A doc that is saved may lose its file**: it is saved between the two pages, and the last doc
of the first page is read again. -/
theorem saved_doc_removed :
    ¬ ∀ (env : Env) (size fuel n : ℕ) (tables : ℕ → List DocRow) (docs : List DocRow)
        (files : List File), (∀ j, ∀ d ∈ tables j, isUuid d.id = true) →
        (∀ j, KeyNodup DocRow.id (tables j)) → KeyNodup File.name files →
        fetchAllDocs size tables fuel 0 [] = some (docs, n) →
        ∀ id title, Stable tables n id title → Mirrored env tables n docs files id := by
  intro h
  have huuid : ∀ d ∈ twoDocs ++ savedDocs, isUuid d.id = true := by decide
  have hmirrored := h (exportEnv []) 1 2 1 (fun j => if j ≤ 1 then twoDocs else savedDocs)
    [⟨idB, bytes "b", 1, bytes "b", 2, false⟩, ⟨idB, bytes "b", 1, bytes "b", 2, false⟩] []
    (fun j d hd => by
      split at hd
      · exact huuid d (List.mem_append_left _ hd)
      · exact huuid d (List.mem_append_right _ hd))
    (fun j => by split <;> decide)
    keyNodup_nil (by decide) idA (bytes "a")
    (fun j _ => by
      dsimp only
      split
      · exact ⟨⟨idA, bytes "a", 1, bytes "old", 1, false⟩, by decide, rfl, rfl⟩
      · exact ⟨⟨idA, bytes "a", 2, bytes "new", 3, false⟩, by decide, rfl, rfl⟩)
  obtain ⟨name, ⟨a, ha, hid⟩, -⟩ := hmirrored
  have hmem := (mem_assign ha).1
  have hids : ∀ d ∈ ([⟨idB, bytes "b", 1, bytes "b", 2, false⟩,
      ⟨idB, bytes "b", 1, bytes "b", 2, false⟩] : List DocRow), d.id ≠ idA := by decide
  exact hids _ hmem hid

end WiseLabz.DocMirror
