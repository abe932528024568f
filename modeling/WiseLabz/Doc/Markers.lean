/-
**Freshly generated blocks contain no marker.**

A fresh block is built from text the program does not control, so the openings of both marker lines
are replaced in it first.  Their only `<` is their first byte, hence a match can neither overlap
another one nor arise from a replacement, and no line of the result is a marker.

Main results:

* `Doc.not_infix_neutralise_open`, `Doc.not_infix_neutralise_close` — the neutralised text contains
  neither marker opening;
* `Doc.Render.goodBlock_of_mem` — **a fresh block is read back as it is printed**, if its key fits
  the marker grammar.
-/

import WiseLabz.Doc.Lines
import WiseLabz.Doc.Merge

set_option relaxedAutoImplicit false
set_option autoImplicit false

namespace WiseLabz.Doc

open Lib

/-! ### The cases of the replacement -/

/-- The opening of an opening marker line. -/
def openPattern : Bytes := bytes "<!-- wl:gen"

/-- The opening of a closing marker line. -/
def closePattern : Bytes := bytes "<!-- /wl:gen"

theorem neutralise_skip (k : ℕ) (s : Bytes) : neutralise k s = neutralise 0 (s.drop k) := by
  induction k generalizing s with
  | zero => simp
  | succ k ih =>
      cases s with
      | nil => simp [neutralise]
      | cons b s => rw [neutralise, ih, List.drop_succ_cons]

theorem neutralise_open (s : Bytes) :
    neutralise 0 (openPattern ++ s) = bytes "<!-- wl-gen" ++ neutralise 0 s := by
  have hp : openPattern = 60 :: bytes "!-- wl:gen" := by decide
  have hm : (bytes "<!-- wl:gen").isPrefixOf (openPattern ++ s) = true :=
    List.isPrefixOf_iff_prefix.2 (List.prefix_append _ _)
  rw [hp, List.cons_append] at hm ⊢
  rw [neutralise, if_pos hm, neutralise_skip,
    show (10 : ℕ) = (bytes "!-- wl:gen").length by decide, List.drop_left]

theorem neutralise_close (s : Bytes) :
    neutralise 0 (closePattern ++ s) = bytes "<!-- /wl-gen" ++ neutralise 0 s := by
  have hp : closePattern = 60 :: bytes "!-- /wl:gen" := by decide
  have hm : (bytes "<!-- /wl:gen").isPrefixOf (closePattern ++ s) = true :=
    List.isPrefixOf_iff_prefix.2 (List.prefix_append _ _)
  have hn : (bytes "<!-- wl:gen").isPrefixOf (closePattern ++ s) = false := by
    simp [closePattern, bytes, List.isPrefixOf]
  rw [hp, List.cons_append] at hm hn ⊢
  rw [neutralise, hn, if_neg (by simp), if_pos hm, neutralise_skip,
    show (11 : ℕ) = (bytes "!-- /wl:gen").length by decide, List.drop_left]

theorem neutralise_cons {b : UInt8} {s : Bytes} (ho : ¬ openPattern <+: b :: s)
    (hc : ¬ closePattern <+: b :: s) : neutralise 0 (b :: s) = b :: neutralise 0 s := by
  have ho' : ¬ (bytes "<!-- wl:gen").isPrefixOf (b :: s) = true := fun h =>
    ho (List.isPrefixOf_iff_prefix.1 h)
  have hc' : ¬ (bytes "<!-- /wl:gen").isPrefixOf (b :: s) = true := fun h =>
    hc (List.isPrefixOf_iff_prefix.1 h)
  rw [neutralise, if_neg ho', if_neg hc']

/-- What the scan does at the start of a text. -/
theorem neutralise_cases (s : Bytes) :
    s = [] ∨
      (∃ r, s = openPattern ++ r ∧ neutralise 0 s = bytes "<!-- wl-gen" ++ neutralise 0 r) ∨
      (∃ r, s = closePattern ++ r ∧ neutralise 0 s = bytes "<!-- /wl-gen" ++ neutralise 0 r) ∨
      ∃ b r, s = b :: r ∧ ¬ openPattern <+: s ∧ ¬ closePattern <+: s ∧
        neutralise 0 s = b :: neutralise 0 r := by
  cases s with
  | nil => exact Or.inl rfl
  | cons b s =>
      by_cases ho : openPattern <+: b :: s
      · obtain ⟨r, hr⟩ := ho
        exact Or.inr (Or.inl ⟨r, hr.symm, hr ▸ neutralise_open r⟩)
      · by_cases hc : closePattern <+: b :: s
        · obtain ⟨r, hr⟩ := hc
          exact Or.inr (Or.inr (Or.inl ⟨r, hr.symm, hr ▸ neutralise_close r⟩))
        · exact Or.inr (Or.inr (Or.inr ⟨b, s, rfl, ho, hc, neutralise_cons ho hc⟩))

/-! ### No marker opening is left -/

/-- What the neutralised text starts with, up to a `<`, the text started with. -/
theorem prefix_of_prefix_neutralise {t s : Bytes} (ht : (60 : UInt8) ∉ t)
    (h : t <+: neutralise 0 s) : t <+: s := by
  induction t generalizing s with
  | nil => exact List.nil_prefix
  | cons c t ih =>
      simp only [List.mem_cons, not_or] at ht
      have hstart : ∀ u o : Bytes, ¬ c :: t <+: 60 :: u ++ o := fun u o hp =>
        ht.1 (List.cons_prefix_cons.1 hp).1.symm
      rcases neutralise_cases s with rfl | ⟨r, rfl, hn⟩ | ⟨r, rfl, hn⟩ | ⟨b, r, rfl, -, -, hn⟩
      · exact h
      · exact (hstart (bytes "!-- wl-gen") (neutralise 0 r) (hn ▸ h)).elim
      · exact (hstart (bytes "!-- /wl-gen") (neutralise 0 r) (hn ▸ h)).elim
      · rw [hn, List.cons_prefix_cons] at h
        exact List.cons_prefix_cons.2 ⟨h.1, ih ht.2 h.2⟩

/-- A pattern that starts with `<` occurs at the start of a text or after its first `<`. -/
theorem infix_append_of_start {t u o : Bytes} (hu : (60 : UInt8) ∉ u)
    (h : 60 :: t <:+: 60 :: u ++ o) : 60 :: t <+: 60 :: u ++ o ∨ 60 :: t <:+: o := by
  have hskip : ∀ v : Bytes, (60 : UInt8) ∉ v → 60 :: t <:+: v ++ o → 60 :: t <:+: o := by
    intro v
    induction v with
    | nil => exact fun _ hv => hv
    | cons c v ih =>
        intro hv hi
        simp only [List.mem_cons, not_or] at hv
        rcases List.infix_cons_iff.1 hi with hp | hi
        · exact (hv.1 (List.cons_prefix_cons.1 hp).1).elim
        · exact ih hv.2 hi
  rcases List.infix_cons_iff.1 h with hp | hi
  · exact Or.inl hp
  · exact Or.inr (hskip u hu hi)

/-- A pattern with its `<` at the start that the scan replaces, and that neither replacement starts
with, does not occur in the neutralised text. -/
theorem not_infix_neutralise {t : Bytes} (ht : (60 : UInt8) ∉ t)
    (hpat : 60 :: t = openPattern ∨ 60 :: t = closePattern)
    (ho : ∀ o, ¬ 60 :: t <+: bytes "<!-- wl-gen" ++ o)
    (hc : ∀ o, ¬ 60 :: t <+: bytes "<!-- /wl-gen" ++ o) (s : Bytes) :
    ¬ 60 :: t <:+: neutralise 0 s := by
  induction hn : s.length using Nat.strong_induction_on generalizing s with
  | _ n ih =>
      intro h
      rcases neutralise_cases s with rfl | ⟨r, rfl, he⟩ | ⟨r, rfl, he⟩ | ⟨b, r, rfl, hno, hnc, he⟩
      · simp [neutralise] at h
      · rw [he] at h
        rcases infix_append_of_start (u := bytes "!-- wl-gen") (by decide) h with hp | hi
        · exact ho _ hp
        · exact ih r.length (by simp [openPattern, bytes] at hn; omega) r rfl hi
      · rw [he] at h
        rcases infix_append_of_start (u := bytes "!-- /wl-gen") (by decide) h with hp | hi
        · exact hc _ hp
        · exact ih r.length (by simp [closePattern, bytes] at hn; omega) r rfl hi
      · rw [he] at h
        rcases List.infix_cons_iff.1 h with hp | hi
        · -- the text itself started with the pattern
          obtain ⟨rfl, htail⟩ := List.cons_prefix_cons.1 hp
          have : 60 :: t <+: 60 :: r :=
            List.cons_prefix_cons.2 ⟨rfl, prefix_of_prefix_neutralise ht htail⟩
          rcases hpat with h' | h'
          · exact hno (h' ▸ this)
          · exact hnc (h' ▸ this)
        · exact ih r.length (by simp at hn; omega) r rfl hi

theorem not_infix_neutralise_open (s : Bytes) : ¬ openPattern <:+: neutralise 0 s :=
  not_infix_neutralise (t := bytes "!-- wl:gen") (by decide) (Or.inl (by decide))
    (fun o => by simp [bytes]) (fun o => by simp [bytes]) s

theorem not_infix_neutralise_close (s : Bytes) : ¬ closePattern <:+: neutralise 0 s :=
  not_infix_neutralise (t := bytes "!-- /wl:gen") (by decide) (Or.inr (by decide))
    (fun o => by simp [bytes]) (fun o => by simp [bytes]) s

/-! ### Fresh blocks -/

/-- No line of a neutralised text is a marker. -/
theorem neutralise_line {s l : Bytes} (h : l ∈ linesOf (neutralise 0 s)) :
    isOpen l = false ∧ l ≠ closeMarker := by
  have hinfix := infix_of_mem_linesOf h
  constructor
  · by_contra ho
    have hp : openPattern <+: l := isOpen_prefix (by simpa using ho)
    exact not_infix_neutralise_open s (hp.isInfix.trans hinfix)
  · rintro rfl
    have hp : closePattern <+: closeMarker := by decide
    exact not_infix_neutralise_close s (hp.isInfix.trans hinfix)

theorem newBlock_line {key body l : Bytes} (h : l ∈ linesOf (newBlock key body).body) :
    isOpen l = false ∧ l ≠ closeMarker := neutralise_line h

theorem Render.line_of_mem {r : Render} {nb : Block} (h : nb ∈ r.blocks) {l : Bytes}
    (hl : l ∈ linesOf nb.body) : isOpen l = false ∧ l ≠ closeMarker := by
  obtain ⟨key, body, rfl⟩ := r.generated nb h
  exact newBlock_line hl

/-- **A fresh block is read back as it is printed**, if its key fits the marker grammar. -/
theorem Render.goodBlock_of_mem {r : Render} {nb : Block} (h : nb ∈ r.blocks)
    (hk : KeyOk nb.key) : GoodBlock nb where
  key := hk
  hash := r.hashOk_of_mem h
  no_open := fun _ hl => (r.line_of_mem h hl).1
  no_close := fun hm => (r.line_of_mem h (List.mem_of_mem_tail hm)).2 rfl

end WiseLabz.Doc
