/-
**The diff of two docs.**

The lines of the docs are compared by the table of their longest common subsequences; the runs of
deleted and added lines are paired into modified rows, with the words that changed; and the long
runs of unchanged rows are folded into gaps.  Nothing is lost or doubled on the way, and the diff
is minimal.

Main definitions:

* `DocDiff.lineDiff`, `DocDiff.toUnits`, `DocDiff.fold` — the three passes;
* `DocDiff.buildDocDiff` — **the model of a diff**;
* `DocDiff.Faithful` — what the model says of the two docs.

Main results:

* `DocDiff.walk_before`, `DocDiff.walk_after`, `DocDiff.walk_same` — the lines;
* `DocDiff.lefts_toUnits`, `DocDiff.rights_toUnits`, `DocDiff.same_toUnits` — the units;
* `DocDiff.expand_foldFrom`, `DocDiff.gap_foldFrom` — the rows;
* `DocDiff.buildDocDiff_faithful` — **the model is faithful and minimal**.
-/

import WiseLabz.Lib.CommonSubsequence
import Mathlib.Data.List.TakeWhile
import Mathlib.Tactic.Common

set_option relaxedAutoImplicit false
set_option autoImplicit false

namespace WiseLabz.DocDiff

open Lib

/-- A text: the code units of a string. -/
abbrev Text := List UInt16

def newline : UInt16 := 10

/-! ### Lines -/

inductive DiffLineType
  | same
  | add
  | del
  deriving DecidableEq, Repr

structure DiffLine where
  type : DiffLineType
  text : Text
  /-- The line number in the doc before, except of an addition. -/
  before : Option ℕ
  /-- The line number in the doc after, except of a deletion. -/
  after : Option ℕ
  deriving DecidableEq, Repr

/-- The lines of a doc: one final newline is dropped. -/
def docLines (src : Text) : List Text :=
  (if src.getLast? = some newline then src.dropLast else src).splitOn newline

/-- The walk through the table, with what is left of the lines from `i` and from `j` on. -/
def walk (lcs : List (List ℕ)) (i j : ℕ) : List Text → List Text → List DiffLine
  | x :: a, y :: b =>
      if x = y then ⟨.same, x, some (i + 1), some (j + 1)⟩ :: walk lcs (i + 1) (j + 1) a b
      else if cell lcs (i + 1) j ≥ cell lcs i (j + 1) then
        ⟨.del, x, some (i + 1), none⟩ :: walk lcs (i + 1) j a (y :: b)
      else ⟨.add, y, none, some (j + 1)⟩ :: walk lcs i (j + 1) (x :: a) b
  | x :: a, [] => ⟨.del, x, some (i + 1), none⟩ :: walk lcs (i + 1) j a []
  | [], y :: b => ⟨.add, y, none, some (j + 1)⟩ :: walk lcs i (j + 1) [] b
  | [], [] => []
termination_by a b => a.length + b.length

/-- `lineDiff` -/
def lineDiff (beforeSrc afterSrc : Text) : List DiffLine :=
  let a := docLines beforeSrc
  let b := docLines afterSrc
  walk (lcsTable b a) 0 0 a b

structure DiffStats where
  added : ℕ
  removed : ℕ
  deriving DecidableEq, Repr

/-- `diffStats` -/
def diffStats (lines : List DiffLine) : DiffStats where
  added := lines.countP (·.type = .add)
  removed := lines.countP (·.type = .del)

/-! ### Words -/

structure WordSegment where
  text : Text
  changed : Bool
  deriving DecidableEq, Repr

structure LineWordDiff where
  del : List WordSegment
  add : List WordSegment
  deriving DecidableEq, Repr

/-- A part that the word diff reports: added, removed or common. -/
structure Part where
  value : Text
  added : Bool
  removed : Bool
  deriving DecidableEq, Repr

/-- One part of the loop of `wordDiff`. -/
def pushPart (out : LineWordDiff) (p : Part) : LineWordDiff :=
  if p.added then { out with add := out.add ++ [⟨p.value, true⟩] }
  else if p.removed then { out with del := out.del ++ [⟨p.value, true⟩] }
  else ⟨out.del ++ [⟨p.value, false⟩], out.add ++ [⟨p.value, false⟩]⟩

section Model

-- `diffWordsWithSpace`: the parts of two lines
variable (diffWordsWithSpace : Text → Text → List Part)

/-- `wordDiff` -/
def wordDiff (before after : Text) : LineWordDiff :=
  (diffWordsWithSpace before after).foldl pushPart ⟨[], []⟩

/-! ### Units -/

inductive UnitType
  | same
  | mod
  | del
  | add
  deriving DecidableEq, Repr

structure DiffRowUnit where
  type : UnitType
  left : Option DiffLine
  right : Option DiffLine
  leftWords : Option (List WordSegment)
  rightWords : Option (List WordSegment)
  deriving DecidableEq, Repr

def sameUnit (l : DiffLine) : DiffRowUnit := ⟨.same, some l, some l, none, none⟩

def delUnit (l : DiffLine) : DiffRowUnit := ⟨.del, some l, none, none, none⟩

def addUnit (l : DiffLine) : DiffRowUnit := ⟨.add, none, some l, none, none⟩

def modUnit (l r : DiffLine) : DiffRowUnit :=
  let wd := wordDiff diffWordsWithSpace l.text r.text
  ⟨.mod, some l, some r, some wd.del, some wd.add⟩

/-- The units of a run of deletions and the run of additions after it. -/
def pairRuns (dels adds : List DiffLine) : List DiffRowUnit :=
  let paired := min dels.length adds.length
  List.zipWith (modUnit diffWordsWithSpace) (dels.take paired) (adds.take paired) ++
    ((dels.drop paired).map delUnit ++ (adds.drop paired).map addUnit)

theorem length_dropRuns_lt {l : DiffLine} {lines : List DiffLine} (h : l.type ≠ .same) :
    (((l :: lines).dropWhile (·.type = .del)).dropWhile (·.type = .add)).length <
      (l :: lines).length := by
  rw [List.length_cons, Nat.lt_succ_iff]
  cases htype : l.type with
  | same => exact absurd htype h
  | add =>
      have hkept : (l :: lines).dropWhile (·.type = .del) = l :: lines := by
        rw [List.dropWhile_cons, htype]
        rfl
      rw [hkept, List.dropWhile_cons, if_pos (by simp [htype])]
      exact (List.dropWhile_suffix _).length_le
  | del =>
      rw [List.dropWhile_cons, if_pos (by simp [htype])]
      exact (List.dropWhile_suffix _).length_le.trans (List.dropWhile_suffix _).length_le

/-- `toUnits` -/
def toUnits : List DiffLine → List DiffRowUnit
  | [] => []
  | l :: lines =>
      if _h : l.type = .same then sameUnit l :: toUnits lines
      else
        let dels := (l :: lines).takeWhile (·.type = .del)
        let rest := (l :: lines).dropWhile (·.type = .del)
        let adds := rest.takeWhile (·.type = .add)
        pairRuns diffWordsWithSpace dels adds ++ toUnits (rest.dropWhile (·.type = .add))
termination_by lines => lines.length
decreasing_by
  · simp
  · exact length_dropRuns_lt _h

/-! ### Rows -/

inductive DocRow
  | unit (u : DiffRowUnit)
  | gap (units : List DiffRowUnit) (count : ℕ)
  deriving DecidableEq, Repr

/-- `slice` -/
def slice {α : Type} (l : List α) (i j : ℕ) : List α := (l.take j).drop i

/-- The rows of a run of unchanged units. -/
def foldRun (context minFold : ℕ) (atStart atEnd : Bool) (run : List DiffRowUnit) : List DocRow :=
  let lead := if atStart then 0 else context
  let tail := if atEnd then 0 else context
  if lead + tail + minFold < run.length then
    let head := slice run 0 lead
    let foot := slice run (run.length - tail) run.length
    let hidden := slice run head.length (run.length - foot.length)
    head.map .unit ++ .gap hidden hidden.length :: foot.map .unit
  else run.map .unit

theorem length_dropSame_lt {u : DiffRowUnit} {units : List DiffRowUnit} (h : u.type = .same) :
    ((u :: units).dropWhile (·.type = .same)).length < (u :: units).length := by
  rw [List.dropWhile_cons, if_pos (by simp [h]), List.length_cons, Nat.lt_succ_iff]
  exact (List.dropWhile_suffix _).length_le

/-- The loop of `fold`; `atStart` before the first unit. -/
def foldFrom (context minFold : ℕ) (atStart : Bool) : List DiffRowUnit → List DocRow
  | [] => []
  | u :: units =>
      if _h : u.type = .same then
        let run := (u :: units).takeWhile (·.type = .same)
        let rest := (u :: units).dropWhile (·.type = .same)
        foldRun context minFold atStart rest.isEmpty run ++ foldFrom context minFold false rest
      else .unit u :: foldFrom context minFold false units
termination_by units => units.length
decreasing_by
  · exact length_dropSame_lt _h
  · simp

/-- `fold` -/
def fold (units : List DiffRowUnit) (context minFold : ℕ) : List DocRow :=
  foldFrom context minFold true units

structure DocDiffModel where
  rows : List DocRow
  stats : DiffStats
  deriving DecidableEq, Repr

/-- `buildDocDiff` -/
def buildDocDiff (before after : Text) (context minFold : ℕ) : DocDiffModel :=
  let lines := lineDiff before after
  ⟨fold (toUnits diffWordsWithSpace lines) context minFold, diffStats lines⟩

end Model

/-! ### What a model says -/

/-- The units of the rows, with the gaps expanded. -/
def expand (rows : List DocRow) : List DiffRowUnit :=
  rows.flatMap fun row => match row with
    | .unit u => [u]
    | .gap units _ => units

def segmentsText (segments : List WordSegment) : Text := segments.flatMap WordSegment.text

/-- A unit has the sides of its type, and the words of a modified line are the line. -/
def DiffRowUnit.Ok (u : DiffRowUnit) : Prop :=
  match u.type with
  | .same => ∃ l, u.left = some l ∧ u.right = some l
  | .mod => ∃ l r lw rw, u.left = some l ∧ u.right = some r ∧
      u.leftWords = some lw ∧ u.rightWords = some rw ∧
      segmentsText lw = l.text ∧ segmentsText rw = r.text
  | .del => (∃ l, u.left = some l) ∧ u.right = none
  | .add => u.left = none ∧ ∃ r, u.right = some r

/-- The next units are unchanged, as many as the context, unless there are fewer. -/
def Unchanged (context : ℕ) (units : List DiffRowUnit) : Prop :=
  ∀ u ∈ units.take context, u.type = .same

/-- **A faithful minimal diff** of the lines of two docs. -/
structure Faithful (before after : List Text) (context : ℕ) (model : DocDiffModel) : Prop where
  /-- The left lines are those of the doc before, with their numbers. -/
  left : ((expand model.rows).filterMap (·.left)).map (fun l => (l.text, l.before)) =
    (before.zipIdx 1).map fun p => (p.1, some p.2)
  /-- The right lines are those of the doc after, with their numbers. -/
  right : ((expand model.rows).filterMap (·.right)).map (fun l => (l.text, l.after)) =
    (after.zipIdx 1).map fun p => (p.1, some p.2)
  /-- The unchanged lines are a longest common subsequence. -/
  same : IsLongestCommon before after ((expand model.rows).countP (·.type = .same))
  /-- What is added and removed is the rest. -/
  added : model.stats.added + (expand model.rows).countP (·.type = .same) = after.length
  removed : model.stats.removed + (expand model.rows).countP (·.type = .same) = before.length
  /-- No other choice of unchanged lines removes or adds less. -/
  minimal : ∀ l : List Text, l.Sublist before → l.Sublist after →
    model.stats.removed ≤ before.length - l.length ∧ model.stats.added ≤ after.length - l.length
  /-- Every unit is of the form of its type. -/
  units : ∀ u ∈ expand model.rows, u.Ok
  /-- A gap has unchanged units only, its count is their number, and the units next to it are
  unchanged. -/
  gap : ∀ pre units count post, model.rows = pre ++ .gap units count :: post →
    (∀ u ∈ units, u.type = .same) ∧ count = units.length ∧
      Unchanged context (expand pre).reverse ∧ Unchanged context (expand post)

/-! ### The lines -/

theorem walk_before (lcs : List (List ℕ)) (i j : ℕ) (a b : List Text) :
    ((walk lcs i j a b).filter (·.type ≠ .add)).map (fun l => (l.text, l.before)) =
      (a.zipIdx (i + 1)).map fun p => (p.1, some p.2) := by
  fun_induction walk lcs i j a b with
  | case1 i j a x b ih => simpa using ih
  | case2 i j x a y b hne hle ih => simpa using ih
  | case3 i j x a y b hne hle ih => simpa using ih
  | case4 i j x a ih => simpa using ih
  | case5 i j y b ih => simpa using ih
  | case6 i j => rfl

theorem walk_after (lcs : List (List ℕ)) (i j : ℕ) (a b : List Text) :
    ((walk lcs i j a b).filter (·.type ≠ .del)).map (fun l => (l.text, l.after)) =
      (b.zipIdx (j + 1)).map fun p => (p.1, some p.2) := by
  fun_induction walk lcs i j a b with
  | case1 i j a x b ih => simpa using ih
  | case2 i j x a y b hne hle ih => simpa using ih
  | case3 i j x a y b hne hle ih => simpa using ih
  | case4 i j x a ih => simpa using ih
  | case5 i j y b ih => simpa using ih
  | case6 i j => rfl

/-- The rest of a list after one more of its elements. -/
theorem drop_succ_of_drop {l r : List Text} {x : Text} {i : ℕ} (h : l.drop i = x :: r) :
    i + 1 ≤ l.length ∧ l.drop (i + 1) = r := by
  have hlt : i < l.length := by
    by_contra hge
    rw [List.drop_eq_nil_of_le (Nat.not_lt.1 hge)] at h
    cases h
  refine ⟨hlt, ?_⟩
  rw [List.drop_eq_getElem_cons hlt] at h
  exact (List.cons.inj h).2

/-- **The walk keeps a longest common subsequence**: where the heads differ it goes to the larger of
the two cells. -/
theorem walk_same {before after : List Text} {i j : ℕ} {a b : List Text}
    (hi : i ≤ before.length) (hj : j ≤ after.length) (ha : before.drop i = a)
    (hb : after.drop j = b) :
    (walk (lcsTable after before) i j a b).countP (·.type = .same) = lcsLength a b := by
  generalize hlcs : lcsTable after before = lcs
  fun_induction walk lcs i j a b with
  | case1 i j a x b ih =>
      obtain ⟨hi', ha'⟩ := drop_succ_of_drop ha
      obtain ⟨hj', hb'⟩ := drop_succ_of_drop hb
      rw [List.countP_cons, ih hi' hj' ha' hb', lcsLength_cons, if_pos rfl]
      rfl
  | case2 i j x a y b hne hle ih =>
      obtain ⟨hi', ha'⟩ := drop_succ_of_drop ha
      obtain ⟨hj', hb'⟩ := drop_succ_of_drop hb
      rw [← hlcs, ge_iff_le, cell_lcsTable hi hj', cell_lcsTable hi' hj, ha, hb, ha', hb'] at hle
      rw [List.countP_cons, ih hi' hj ha' hb, lcsLength_cons, if_neg hne,
        Nat.max_eq_left hle]
      rfl
  | case3 i j x a y b hne hle ih =>
      obtain ⟨hi', ha'⟩ := drop_succ_of_drop ha
      obtain ⟨hj', hb'⟩ := drop_succ_of_drop hb
      rw [← hlcs, ge_iff_le, cell_lcsTable hi hj', cell_lcsTable hi' hj, ha, hb, ha', hb',
        Nat.not_le] at hle
      rw [List.countP_cons, ih hi hj' ha hb', lcsLength_cons, if_neg hne,
        Nat.max_eq_right hle.le]
      rfl
  | case4 i j x a ih =>
      obtain ⟨hi', ha'⟩ := drop_succ_of_drop ha
      rw [List.countP_cons, ih hi' hj ha' hb, lcsLength_nil_right, lcsLength_nil_right]
      rfl
  | case5 i j y b ih =>
      obtain ⟨hj', hb'⟩ := drop_succ_of_drop hb
      rw [List.countP_cons, ih hi hj' ha hb', lcsLength_nil_left, lcsLength_nil_left]
      rfl
  | case6 i j => rw [lcsLength_nil_left]; rfl

/-- A line on the side before is deleted or unchanged. -/
theorem length_filter_add (lines : List DiffLine) :
    (lines.filter (·.type ≠ .add)).length =
      lines.countP (·.type = .del) + lines.countP (·.type = .same) := by
  rw [← List.countP_eq_length_filter]
  induction lines with
  | nil => rfl
  | cons l lines ih =>
      rw [List.countP_cons, List.countP_cons, List.countP_cons, ih]
      cases l.type <;> simp <;> omega

/-- A line on the side after is added or unchanged. -/
theorem length_filter_del (lines : List DiffLine) :
    (lines.filter (·.type ≠ .del)).length =
      lines.countP (·.type = .add) + lines.countP (·.type = .same) := by
  rw [← List.countP_eq_length_filter]
  induction lines with
  | nil => rfl
  | cons l lines ih =>
      rw [List.countP_cons, List.countP_cons, List.countP_cons, ih]
      cases l.type <;> simp <;> omega

/-! ### The words -/

/-- What is assumed of the word diff: its removed and common parts are the text before, and its
added and common parts the text after. -/
structure WordParts (diffWordsWithSpace : Text → Text → List Part) : Prop where
  before : ∀ x y, ((diffWordsWithSpace x y).filter fun p => !p.added).flatMap Part.value = x
  after : ∀ x y,
    ((diffWordsWithSpace x y).filter fun p => p.added || !p.removed).flatMap Part.value = y

theorem foldl_pushPart (parts : List Part) (out : LineWordDiff) :
    segmentsText (parts.foldl pushPart out).del =
        segmentsText out.del ++ (parts.filter fun p => !p.added).flatMap Part.value ∧
      segmentsText (parts.foldl pushPart out).add =
        segmentsText out.add ++
          (parts.filter fun p => p.added || !p.removed).flatMap Part.value := by
  induction parts generalizing out with
  | nil => simp
  | cons p parts ih =>
      obtain ⟨hdel, hadd⟩ := ih (pushPart out p)
      rw [List.foldl_cons, hdel, hadd]
      cases hadded : p.added <;> cases hremoved : p.removed <;>
        simp [pushPart, hadded, hremoved, segmentsText]

section Words

variable {diffWordsWithSpace : Text → Text → List Part}

/-- **The words of two lines** are the lines. -/
theorem WordParts.wordDiff (h : WordParts diffWordsWithSpace) (x y : Text) :
    segmentsText (wordDiff diffWordsWithSpace x y).del = x ∧
      segmentsText (wordDiff diffWordsWithSpace x y).add = y := by
  obtain ⟨hdel, hadd⟩ := foldl_pushPart (diffWordsWithSpace x y) ⟨[], []⟩
  rw [h.before] at hdel
  rw [h.after] at hadd
  exact ⟨hdel, hadd⟩

/-! ### The units -/

theorem type_of_mem_takeWhile {t : DiffLineType} {lines : List DiffLine} {l : DiffLine}
    (h : l ∈ lines.takeWhile (·.type = t)) : l.type = t := by
  simpa using List.mem_takeWhile_imp h

theorem filterMap_zipWith (diffWordsWithSpace : Text → Text → List Part)
    {dels adds : List DiffLine} (h : dels.length = adds.length) :
    (List.zipWith (modUnit diffWordsWithSpace) dels adds).filterMap (·.left) = dels ∧
      (List.zipWith (modUnit diffWordsWithSpace) dels adds).filterMap (·.right) = adds := by
  induction dels generalizing adds with
  | nil =>
      cases adds with
      | nil => exact ⟨rfl, rfl⟩
      | cons r adds => cases h
  | cons l dels ih =>
      cases adds with
      | nil => cases h
      | cons r adds =>
          obtain ⟨hleft, hright⟩ := ih (Nat.succ.inj h)
          exact ⟨congrArg (l :: ·) hleft, congrArg (r :: ·) hright⟩

theorem filterMap_delUnit (dels : List DiffLine) :
    (dels.map delUnit).filterMap (·.left) = dels ∧ (dels.map delUnit).filterMap (·.right) = [] := by
  induction dels with
  | nil => exact ⟨rfl, rfl⟩
  | cons l dels ih => exact ⟨congrArg (l :: ·) ih.1, ih.2⟩

theorem filterMap_addUnit (adds : List DiffLine) :
    (adds.map addUnit).filterMap (·.left) = [] ∧ (adds.map addUnit).filterMap (·.right) = adds := by
  induction adds with
  | nil => exact ⟨rfl, rfl⟩
  | cons l adds ih => exact ⟨ih.1, congrArg (l :: ·) ih.2⟩

/-- **The sides of two runs** that are paired are the runs. -/
theorem filterMap_pairRuns (dels adds : List DiffLine) :
    (pairRuns diffWordsWithSpace dels adds).filterMap (·.left) = dels ∧
      (pairRuns diffWordsWithSpace dels adds).filterMap (·.right) = adds := by
  have hlen : (dels.take (min dels.length adds.length)).length =
      (adds.take (min dels.length adds.length)).length := by
    rw [List.length_take, List.length_take]
    omega
  obtain ⟨hleft, hright⟩ := filterMap_zipWith diffWordsWithSpace hlen
  rw [pairRuns, List.filterMap_append, List.filterMap_append, List.filterMap_append,
    List.filterMap_append, hleft, hright, (filterMap_delUnit _).1, (filterMap_delUnit _).2,
    (filterMap_addUnit _).1, (filterMap_addUnit _).2, List.append_nil, List.nil_append]
  exact ⟨List.take_append_drop _ _, List.take_append_drop _ _⟩

theorem exists_of_mem_zipWith {dels adds : List DiffLine} {u : DiffRowUnit}
    (h : u ∈ List.zipWith (modUnit diffWordsWithSpace) dels adds) :
    ∃ l ∈ dels, ∃ r ∈ adds, u = modUnit diffWordsWithSpace l r := by
  rw [← List.map_uncurry_zip_eq_zipWith] at h
  obtain ⟨⟨l, r⟩, hzip, rfl⟩ := List.mem_map.1 h
  exact ⟨l, (List.of_mem_zip hzip).1, r, (List.of_mem_zip hzip).2, rfl⟩

theorem mem_pairRuns {dels adds : List DiffLine} {u : DiffRowUnit}
    (h : u ∈ pairRuns diffWordsWithSpace dels adds) :
    (∃ l ∈ dels, ∃ r ∈ adds, u = modUnit diffWordsWithSpace l r) ∨
      (∃ l ∈ dels, u = delUnit l) ∨ ∃ r ∈ adds, u = addUnit r := by
  rw [pairRuns] at h
  rcases List.mem_append.1 h with h | h
  · obtain ⟨l, hl, r, hr, rfl⟩ := exists_of_mem_zipWith h
    exact Or.inl ⟨l, List.mem_of_mem_take hl, r, List.mem_of_mem_take hr, rfl⟩
  · rcases List.mem_append.1 h with h | h
    · obtain ⟨l, hl, rfl⟩ := List.mem_map.1 h
      exact Or.inr (Or.inl ⟨l, List.mem_of_mem_drop hl, rfl⟩)
    · obtain ⟨r, hr, rfl⟩ := List.mem_map.1 h
      exact Or.inr (Or.inr ⟨r, List.mem_of_mem_drop hr, rfl⟩)

/-- The lines before two runs, and after them. -/
theorem runs_append (lines : List DiffLine) :
    lines.takeWhile (·.type = .del) ++ ((lines.dropWhile (·.type = .del)).takeWhile
      (·.type = .add) ++ (lines.dropWhile (·.type = .del)).dropWhile (·.type = .add)) = lines := by
  rw [List.takeWhile_append_dropWhile, List.takeWhile_append_dropWhile]

theorem filter_takeWhile {t t' : DiffLineType} (lines : List DiffLine) :
    (lines.takeWhile (·.type = t)).filter (·.type ≠ t') =
      if t = t' then [] else lines.takeWhile (·.type = t) := by
  split
  · next h =>
      refine List.filter_eq_nil_iff.2 fun l hl => ?_
      simp [type_of_mem_takeWhile hl, h]
  · next h =>
      refine List.filter_eq_self.2 fun l hl => ?_
      simp [type_of_mem_takeWhile hl, h]

/-- **The left lines of the units** are the lines that are not added. -/
theorem lefts_toUnits (lines : List DiffLine) :
    (toUnits diffWordsWithSpace lines).filterMap (·.left) = lines.filter (·.type ≠ .add) := by
  fun_induction toUnits diffWordsWithSpace lines with
  | case1 => rfl
  | case2 l lines h ih =>
      rw [List.filterMap_cons, List.filter_cons, if_pos (by simp [h]), ih]
      rfl
  | case3 l lines h dels rest adds ih =>
      rw [List.filterMap_append, (filterMap_pairRuns dels adds).1, ih]
      conv_rhs => rw [← runs_append (l :: lines)]
      rw [List.filter_append, List.filter_append, filter_takeWhile, filter_takeWhile]
      rfl

/-- **The right lines of the units** are the lines that are not deleted. -/
theorem rights_toUnits (lines : List DiffLine) :
    (toUnits diffWordsWithSpace lines).filterMap (·.right) = lines.filter (·.type ≠ .del) := by
  fun_induction toUnits diffWordsWithSpace lines with
  | case1 => rfl
  | case2 l lines h ih =>
      rw [List.filterMap_cons, List.filter_cons, if_pos (by simp [h]), ih]
      rfl
  | case3 l lines h dels rest adds ih =>
      rw [List.filterMap_append, (filterMap_pairRuns dels adds).2, ih]
      conv_rhs => rw [← runs_append (l :: lines)]
      rw [List.filter_append, List.filter_append, filter_takeWhile, filter_takeWhile]
      rfl

/-- **The unchanged units** are the unchanged lines. -/
theorem same_toUnits (lines : List DiffLine) :
    (toUnits diffWordsWithSpace lines).countP (·.type = .same) =
      lines.countP (·.type = .same) := by
  fun_induction toUnits diffWordsWithSpace lines with
  | case1 => rfl
  | case2 l lines h ih =>
      rw [List.countP_cons, List.countP_cons, ih, h]
      rfl
  | case3 l lines h dels rest adds ih =>
      have hpaired : (pairRuns diffWordsWithSpace dels adds).countP (·.type = .same) = 0 := by
        refine List.countP_eq_zero.2 fun u hu => ?_
        rcases mem_pairRuns hu with ⟨l, -, r, -, rfl⟩ | ⟨l, -, rfl⟩ | ⟨r, -, rfl⟩ <;>
          simp [modUnit, delUnit, addUnit]
      have hrun : ∀ {t : DiffLineType} (lines : List DiffLine), t ≠ .same →
          (lines.takeWhile (·.type = t)).countP (·.type = .same) = 0 := by
        intro t lines ht
        refine List.countP_eq_zero.2 fun l hl => ?_
        simp [type_of_mem_takeWhile hl, ht]
      rw [List.countP_append, hpaired, ih]
      conv_rhs => rw [← runs_append (l :: lines)]
      rw [List.countP_append, List.countP_append, hrun _ (by decide), hrun _ (by decide),
        Nat.zero_add, Nat.zero_add]

/-- **Every unit has the form of its type.** -/
theorem ok_toUnits (h : WordParts diffWordsWithSpace) (lines : List DiffLine) :
    ∀ u ∈ toUnits diffWordsWithSpace lines, u.Ok := by
  fun_induction toUnits diffWordsWithSpace lines with
  | case1 => simp
  | case2 l lines _ ih =>
      intro u hu
      rcases List.mem_cons.1 hu with rfl | hu
      · exact ⟨l, rfl, rfl⟩
      · exact ih u hu
  | case3 l lines _ dels rest adds ih =>
      intro u hu
      rcases List.mem_append.1 hu with hu | hu
      · rcases mem_pairRuns hu with ⟨l, -, r, -, rfl⟩ | ⟨l, -, rfl⟩ | ⟨r, -, rfl⟩
        · obtain ⟨hdel, hadd⟩ := h.wordDiff l.text r.text
          exact ⟨l, r, _, _, rfl, rfl, rfl, rfl, hdel, hadd⟩
        · exact ⟨⟨l, rfl⟩, rfl⟩
        · exact ⟨rfl, r, rfl⟩
      · exact ih u hu

end Words

/-! ### The rows -/

theorem expand_append (rows rows' : List DocRow) :
    expand (rows ++ rows') = expand rows ++ expand rows' := List.flatMap_append

theorem expand_units (units : List DiffRowUnit) : expand (units.map .unit) = units := by
  induction units with
  | nil => rfl
  | cons u units ih => exact congrArg (u :: ·) ih

/-- A run that is folded: its head, what is hidden, and its foot. -/
theorem foldRun_cases (context minFold : ℕ) (atStart atEnd : Bool) (run : List DiffRowUnit) :
    foldRun context minFold atStart atEnd run = run.map .unit ∨
      ∃ head hidden foot, run = head ++ (hidden ++ foot) ∧
        foldRun context minFold atStart atEnd run =
          head.map .unit ++ .gap hidden hidden.length :: foot.map .unit ∧
        head.length = (if atStart then 0 else context) ∧
        foot.length = if atEnd then 0 else context := by
  rw [foldRun]
  generalize (if atStart = true then 0 else context) = lead
  generalize (if atEnd = true then 0 else context) = tail
  dsimp only
  split
  · next hlt =>
      have hhead : (slice run 0 lead).length = lead := by
        simp only [slice, List.drop_zero, List.length_take]
        omega
      have hfoot : (slice run (run.length - tail) run.length).length = tail := by
        simp only [slice, List.take_length, List.length_drop]
        omega
      refine Or.inr ⟨_, _, _, ?_, rfl, hhead, hfoot⟩
      -- the run is cut at the end of its head and at the start of its foot
      have hcut : slice run 0 lead = (run.take (run.length - tail)).take lead := by
        rw [slice, List.drop_zero, List.take_take, Nat.min_eq_left (by omega)]
      rw [hhead, hfoot, hcut, slice, ← List.append_assoc, List.take_append_drop, slice,
        List.take_length, List.take_append_drop]
  · exact Or.inl rfl

theorem expand_foldRun (context minFold : ℕ) (atStart atEnd : Bool) (run : List DiffRowUnit) :
    expand (foldRun context minFold atStart atEnd run) = run := by
  rcases foldRun_cases context minFold atStart atEnd run with
    h | ⟨head, hidden, foot, hrun, h, -, -⟩
  · rw [h, expand_units]
  · have hgap : expand (.gap hidden hidden.length :: foot.map .unit) = hidden ++ foot :=
      congrArg (hidden ++ ·) (expand_units foot)
    rw [h, expand_append, expand_units, hgap, ← hrun]

/-- **The rows are the units**, with the gaps expanded. -/
theorem expand_foldFrom (context minFold : ℕ) (atStart : Bool) (units : List DiffRowUnit) :
    expand (foldFrom context minFold atStart units) = units := by
  fun_induction foldFrom context minFold atStart units with
  | case1 atStart => rfl
  | case2 atStart u units h run rest ih =>
      rw [expand_append, expand_foldRun, ih]
      exact List.takeWhile_append_dropWhile
  | case3 atStart u units h ih => exact congrArg (u :: ·) ih

/-- What begins with unchanged units, as many as the context or all. -/
theorem unchanged_append {context : ℕ} {s t : List DiffRowUnit} (hs : ∀ u ∈ s, u.type = .same)
    (h : s.length = context ∨ t = []) : Unchanged context (s ++ t) := by
  intro u hu
  rcases h with rfl | rfl
  · rw [List.take_left] at hu
    exact hs u hu
  · rw [List.append_nil] at hu
    exact hs u (List.mem_of_mem_take hu)

/-- A gap between units is the one gap. -/
theorem split_gap {head foot us units : List DiffRowUnit} {n count : ℕ} {pre post : List DocRow}
    (h : head.map DocRow.unit ++ .gap us n :: foot.map .unit = pre ++ .gap units count :: post) :
    pre = head.map .unit ∧ units = us ∧ count = n ∧ post = foot.map .unit := by
  have hunit : ∀ l : List DiffRowUnit, ∀ us n, DocRow.gap us n ∉ l.map .unit := by
    intro l us n hmem
    obtain ⟨u, -, hu⟩ := List.mem_map.1 hmem
    cases hu
  induction head generalizing pre with
  | nil =>
      cases pre with
      | nil =>
          obtain ⟨hgap, hpost⟩ := List.cons.inj h
          cases hgap
          exact ⟨rfl, rfl, rfl, hpost.symm⟩
      | cons row pre =>
          have hmem : DocRow.gap units count ∈ foot.map .unit := by
            rw [(List.cons.inj h).2]
            simp
          exact absurd hmem (hunit foot units count)
  | cons u head ih =>
      cases pre with
      | nil => cases (List.cons.inj h).1
      | cons row pre =>
          obtain ⟨hrow, hrest⟩ := List.cons.inj h
          obtain ⟨rfl, hunits, hcount, hpost⟩ := ih hrest
          exact ⟨by rw [← hrow]; rfl, hunits, hcount, hpost⟩

/-- What a gap says, after the units that are `done`. -/
structure GapOk (context : ℕ) (done : List DiffRowUnit) (pre : List DocRow)
    (units : List DiffRowUnit) (count : ℕ) (post : List DocRow) : Prop where
  same : ∀ u ∈ units, u.type = .same
  count : count = units.length
  before : Unchanged context ((expand pre).reverse ++ done)
  after : Unchanged context (expand post)

/-- A gap in the rows of a run: it hides units of the run, and keeps the context. -/
theorem gap_foldRun {context minFold : ℕ} {atStart atEnd : Bool} {run done : List DiffRowUnit}
    (hsame : ∀ u ∈ run, u.type = .same) (hstart : atStart = true → done = [])
    {pre post rows : List DocRow} (hend : atEnd = true → expand rows = [])
    {hidden : List DiffRowUnit} {count : ℕ}
    (h : foldRun context minFold atStart atEnd run = pre ++ .gap hidden count :: post) :
    GapOk context done pre hidden count (post ++ rows) := by
  rcases foldRun_cases context minFold atStart atEnd run with
    hrow | ⟨head, units, foot, rfl, hrow, hhead, hfoot⟩
  · have hmem : DocRow.gap hidden count ∈ run.map .unit := by
      rw [← hrow, h]
      simp
    obtain ⟨u, -, hu⟩ := List.mem_map.1 hmem
    cases hu
  · obtain ⟨rfl, rfl, rfl, rfl⟩ := split_gap (hrow.symm.trans h)
    refine ⟨fun u hu => hsame u (by simp [hu]), rfl, ?_, ?_⟩
    · rw [expand_units]
      refine unchanged_append (fun u hu => hsame u ?_) ?_
      · exact List.mem_append_left _ (List.mem_reverse.1 hu)
      · rw [List.length_reverse]
        cases hat : atStart with
        | true => exact Or.inr (hstart hat)
        | false => exact Or.inl (by rw [hhead, hat]; rfl)
    · rw [expand_append, expand_units]
      refine unchanged_append (fun u hu => hsame u (by simp [hu])) ?_
      cases hat : atEnd with
      | true => exact Or.inr (hend hat)
      | false => exact Or.inl (by rw [hfoot, hat]; rfl)

/-- **A gap in the rows of the units**: it hides unchanged units, and keeps the context. -/
theorem gap_foldFrom {context minFold : ℕ} {atStart : Bool} {units : List DiffRowUnit}
    (done : List DiffRowUnit) (hstart : atStart = true → done = []) {pre post : List DocRow}
    {hidden : List DiffRowUnit} {count : ℕ}
    (h : foldFrom context minFold atStart units = pre ++ .gap hidden count :: post) :
    GapOk context done pre hidden count post := by
  fun_induction foldFrom context minFold atStart units generalizing done pre with
  | case1 => cases pre <;> cases h
  | case2 =>
      rename_i atStart u units htype run rest ih
      have hsame : ∀ u ∈ run, u.type = .same := fun u hu => by
        simpa using List.mem_takeWhile_imp hu
      have hend : rest.isEmpty = true → expand (foldFrom context minFold false rest) = [] := by
        rw [expand_foldFrom]
        exact List.isEmpty_iff.1
      rcases List.append_eq_append_iff.1 h with ⟨pre', rfl, hrest⟩ | ⟨post', hrun, hpost⟩
      · -- the gap is in the rows of the later units
        obtain ⟨hgap, hcount, hbefore, hafter⟩ := ih (run.reverse ++ done) (by simp) hrest
        refine ⟨hgap, hcount, ?_, hafter⟩
        rw [expand_append, expand_foldRun, List.reverse_append, List.append_assoc]
        exact hbefore
      · cases post' with
        | nil =>
            have hgaps : foldFrom context minFold false rest = [] ++ .gap hidden count :: post :=
              hpost.symm
            obtain ⟨hgap, hcount, hbefore, hafter⟩ := ih (run.reverse ++ done) (by simp) hgaps
            rw [List.append_nil] at hrun
            refine ⟨hgap, hcount, ?_, hafter⟩
            rw [← hrun, expand_foldRun]
            exact hbefore
        | cons row post' =>
            obtain ⟨rfl, rfl⟩ := List.cons.inj hpost
            exact gap_foldRun hsame hstart hend hrun
  | case3 =>
      rename_i atStart u units htype ih
      cases pre with
      | nil => cases (List.cons.inj h).1
      | cons row pre =>
          obtain ⟨hrow, hrest⟩ := List.cons.inj h
          obtain ⟨hgap, hcount, hbefore, hafter⟩ := ih (u :: done) (by simp) hrest
          refine ⟨hgap, hcount, ?_, hafter⟩
          have hexpand : (expand (row :: pre)).reverse ++ done =
              (expand pre).reverse ++ u :: done := by
            rw [← hrow]
            simp [expand]
          rw [hexpand]
          exact hbefore

/-! ### The model -/

/-- **The model of a diff is faithful and minimal**, for every context and every least length of a
fold. -/
theorem buildDocDiff_faithful {diffWordsWithSpace : Text → Text → List Part}
    (h : WordParts diffWordsWithSpace) (before after : Text) (context minFold : ℕ) :
    Faithful (docLines before) (docLines after) context
      (buildDocDiff diffWordsWithSpace before after context minFold) := by
  have hexpand : expand (buildDocDiff diffWordsWithSpace before after context minFold).rows =
      toUnits diffWordsWithSpace (lineDiff before after) := expand_foldFrom ..
  have hsame : (lineDiff before after).countP (·.type = .same) =
      lcsLength (docLines before) (docLines after) :=
    walk_same (Nat.zero_le _) (Nat.zero_le _) rfl rfl
  have hleft : ((lineDiff before after).filter (·.type ≠ .add)).map
      (fun l => (l.text, l.before)) = _ := walk_before _ 0 0 _ _
  have hright : ((lineDiff before after).filter (·.type ≠ .del)).map
      (fun l => (l.text, l.after)) = _ := walk_after _ 0 0 _ _
  have hlengthBefore := congrArg List.length hleft
  have hlengthAfter := congrArg List.length hright
  rw [List.length_map, List.length_map, List.length_zipIdx, length_filter_add] at hlengthBefore
  rw [List.length_map, List.length_map, List.length_zipIdx, length_filter_del] at hlengthAfter
  have hlongest := isLongestCommon_lcsLength (docLines before) (docLines after)
  rw [← hsame] at hlongest
  refine ⟨?_, ?_, ?_, ?_, ?_, ?_, ?_, ?_⟩
  · rw [hexpand, lefts_toUnits, hleft]
  · rw [hexpand, rights_toUnits, hright]
  · rw [hexpand, same_toUnits]
    exact hlongest
  · rw [hexpand, same_toUnits]
    exact hlengthAfter
  · rw [hexpand, same_toUnits]
    exact hlengthBefore
  · intro l hl hl'
    have hle := hlongest.le l hl hl'
    exact ⟨Nat.le_sub_of_add_le ((Nat.add_le_add_left hle _).trans hlengthBefore.le),
      Nat.le_sub_of_add_le ((Nat.add_le_add_left hle _).trans hlengthAfter.le)⟩
  · rw [hexpand]
    exact ok_toUnits h _
  · intro pre units count post hrows
    obtain ⟨hgap, hcount, hbefore, hafter⟩ := gap_foldFrom [] (fun _ => rfl) hrows
    rw [List.append_nil] at hbefore
    exact ⟨hgap, hcount, hbefore, hafter⟩

/-- The parts of two lines without a common word. -/
def replacedParts (x y : Text) : List Part :=
  if x = y then [⟨x, false, false⟩] else [⟨x, false, true⟩, ⟨y, true, false⟩]

theorem wordParts_replacedParts : WordParts replacedParts where
  before x y := by
    rw [replacedParts]
    split <;> simp
  after x y := by
    rw [replacedParts]
    split
    · next h => simp [h]
    · simp

/-- The lines `a`, `b` and the lines `a`, `c`: a line is kept, and a line modified. -/
theorem buildDocDiff_faithful_sample :
    Faithful [[97], [98]] [[97], [99]] 3
      (buildDocDiff replacedParts [97, 10, 98, 10] [97, 10, 99, 10] 3 2) := by
  have hbefore : docLines [97, 10, 98, 10] = [[97], [98]] := by decide
  have hafter : docLines [97, 10, 99, 10] = [[97], [99]] := by decide
  have h := buildDocDiff_faithful wordParts_replacedParts [97, 10, 98, 10] [97, 10, 99, 10] 3 2
  rwa [hbefore, hafter] at h

end WiseLabz.DocDiff
