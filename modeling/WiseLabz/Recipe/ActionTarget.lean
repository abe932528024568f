/-
**What an action addresses.**

A checked template has only pieces that can be resolved, and a value that is resolved into a path
is one segment of it, without a slash or a question mark and never made of dots alone.  So the
values decide what stands in the segments with placeholders, and nothing else of the address.

Main definitions:

* `Recipe.pathSegments`, `Recipe.templateSegments` — the segments of a path and of its template;
* `Recipe.Sound` — a piece that a checked template may have;
* `Recipe.Addresses` — **what a resolved action keeps of its template**.

Main results:

* `Recipe.pieces_cut` — a checked path is cut at a question mark between its pieces;
* `Recipe.addresses_of_resolved` — a resolved action addresses what its template does;
* `Recipe.action_target` — **two entities' actions have the same target**, and resolution fails for
  the values only.
-/

import WiseLabz.Recipe.Actions

set_option relaxedAutoImplicit false
set_option autoImplicit false

namespace WiseLabz.Recipe

open Lib

variable {A : Type}

/-! ### Addresses -/

/-- The segments of a path, without its query string. -/
def pathSegments (path : Bytes) : List Bytes := (cut 63 path).1.splitOn 47

/-- The segments of the template of a path. -/
def templateSegments (path : Bytes) : List (List Piece) :=
  (pieces (cut 63 path).1).splitOn (.byte 47)

/-- Pieces without a placeholder. -/
def IsStatic (segment : List Piece) : Prop := ∀ p ∈ segment, ∃ b, p = .byte b

def Piece.text : Piece → Bytes
  | .byte b => [b]
  | _ => []

/-- The text of static pieces. -/
def staticText (segment : List Piece) : Bytes := segment.flatMap Piece.text

/-- Values that differ in strings only. -/
inductive SameShape : BodyValue → BodyValue → Prop
  | refl (v : BodyValue) : SameShape v v
  | string (s t : Bytes) : SameShape (.string s) (.string t)
  | array {vs ws : List BodyValue} (items : List.Forall₂ SameShape vs ws) :
      SameShape (.array vs) (.array ws)
  | object {a b : Bool} {ms ns : List (Option Bytes × BodyValue)}
      (keys : ms.map Prod.fst = ns.map Prod.fst)
      (values : List.Forall₂ SameShape (ms.map Prod.snd) (ns.map Prod.snd)) :
      SameShape (.object a ms) (.object b ns)

/-- **What a resolved action keeps of its template**: the number of segments, the static segments,
the query string, the keys of the query and the shape of the body; and it has a dot segment only
where the template has it. -/
structure Addresses (action r : RecipeAction) : Prop where
  count : (pathSegments r.path).length = (templateSegments action.path).length
  static : ∀ (i : ℕ) segment, (templateSegments action.path)[i]? = some segment →
    IsStatic segment → (pathSegments r.path)[i]? = some (staticText segment)
  dots : ∀ (i : ℕ) p, (pathSegments r.path)[i]? = some p → p = bytes "." ∨ p = bytes ".." →
    ∃ segment, (templateSegments action.path)[i]? = some segment ∧ IsStatic segment ∧
      staticText segment = p
  query : (cut 63 r.path).2 = (cut 63 action.path).2.map fun q => staticText (pieces q)
  queryKeys : r.query.map Prod.fst = action.query.map Prod.fst
  body : SameShape action.body r.body

/-- Two resolved actions of one template with the same segments but for those with placeholders. -/
structure SameTarget (action r₁ r₂ : RecipeAction) : Prop where
  count : (pathSegments r₁.path).length = (pathSegments r₂.path).length
  static : ∀ (i : ℕ) segment, (templateSegments action.path)[i]? = some segment →
    IsStatic segment → (pathSegments r₁.path)[i]? = (pathSegments r₂.path)[i]?
  query : (cut 63 r₁.path).2 = (cut 63 r₂.path).2

theorem Addresses.sameTarget {action r₁ r₂ : RecipeAction} (h₁ : Addresses action r₁)
    (h₂ : Addresses action r₂) : SameTarget action r₁ r₂ where
  count := h₁.count.trans h₂.count.symm
  static i segment hi hs := (h₁.static i segment hi hs).trans (h₂.static i segment hi hs).symm
  query := h₁.query.trans h₂.query.symm

/-- The causes that lie in the values of an entity. -/
def OfValue (entity : RecipeEntity A) : ActionCause → Prop
  | .emptyExternalID => True
  | .missing attr => attr ∈ entity.attributes.map Prod.fst
  | .notScalar attr => attr ∈ entity.attributes.map Prod.fst
  | .segment _ _ _ => True
  | _ => False

/-! ### Pieces -/

/-- A piece that a checked template may have. -/
def Sound (entity : RecipeEntity A) : Piece → Prop
  | .byte _ => True
  | .placeholder name =>
      placeholderIssue name = none ∧
        (name = bytes "external_id" ∨
          ∃ attr ∈ entity.attributes.map Prod.fst, name = bytes "attr." ++ attr ∧ 63 ∉ attr)
  | _ => False

/-- A piece without a question mark in a name. -/
def Clean : Piece → Prop
  | .byte _ => True
  | .placeholder name => 63 ∉ name
  | _ => False

theorem Sound.clean {entity : RecipeEntity A} {p : Piece} (h : Sound entity p) : Clean p := by
  cases p with
  | byte b => trivial
  | placeholder name =>
      rcases h.2 with rfl | ⟨attr, -, rfl, hattr⟩
      · show 63 ∉ bytes "external_id"
        decide
      · exact fun hmem => (List.mem_append.1 hmem).elim (by decide) hattr
  | unclosed => exact h
  | unmatched => exact h

theorem attr_ne_external_id (attr : Bytes) : bytes "attr." ++ attr ≠ bytes "external_id" := by
  intro h
  have hhead : (97 : UInt8) = 101 := congrArg (fun s => s.headD 0) h
  exact absurd hhead (by decide)

/-- The byte of a piece is a byte of the template. -/
theorem mem_of_byte_mem_pieces {b : UInt8} {s : Bytes} (h : Piece.byte b ∈ pieces s) : b ∈ s := by
  fun_induction pieces s with
  | case1 => exact absurd h List.not_mem_nil
  | case2 c rest ih =>
      have htail : ∀ x ∈ (nextPiece c rest).2, x ∈ rest := by
        intro x hx
        unfold nextPiece at hx
        split at hx
        · split at hx
          · exact List.mem_of_mem_tail hx
          · split at hx
            · next hcut =>
                rw [cut_eq_some hcut]
                exact List.mem_append_right _ (List.mem_cons_of_mem _ hx)
            · exact absurd hx List.not_mem_nil
        · split at hx
          · split at hx
            · exact List.mem_of_mem_tail hx
            · exact hx
          · exact hx
      rcases List.mem_cons.1 h with hb | hb
      · unfold nextPiece at hb
        split at hb
        · next hc =>
            split at hb
            · rw [hc, Piece.byte.inj hb]
              exact List.mem_cons_self
            · split at hb <;> cases hb
        · split at hb
          · next hc =>
              split at hb
              · rw [hc, Piece.byte.inj hb]
                exact List.mem_cons_self
              · cases hb
          · rw [Piece.byte.inj hb]
            exact List.mem_cons_self
      · exact List.mem_cons_of_mem _ (htail b (ih hb))

/-- A piece that is not cut by a question mark stays when a text follows the question mark. -/
theorem nextPiece_append {c : UInt8} {s r : Bytes} (h : Clean (nextPiece c (s ++ 63 :: r)).1) :
    nextPiece c (s ++ 63 :: r) = ((nextPiece c s).1, (nextPiece c s).2 ++ 63 :: r) := by
  cases s with
  | nil =>
      rw [List.nil_append] at h ⊢
      unfold nextPiece at h ⊢
      split
      · next hc =>
          rw [if_pos hc, if_neg (by simp)] at h
          split at h
          · -- a placeholder that begins with the question mark
            refine absurd ?_ h
            rw [cut, if_neg (by decide)]
            exact List.mem_cons_self
          · exact h.elim
      · split
        · next hne hc =>
            rw [if_neg hne, if_pos hc, if_neg (by simp)] at h
            exact h.elim
        · rfl
  | cons x s =>
      have hhead : (x :: s ++ 63 :: r).head? = (x :: s).head? := rfl
      unfold nextPiece at h ⊢
      rw [hhead] at h ⊢
      split
      · next hc =>
          rw [if_pos hc] at h
          split
          · rfl
          · next hx =>
              rw [if_neg hx] at h
              by_cases hmem : (125 : UInt8) ∈ x :: s
              · rw [cut_append_of_mem _ hmem]
                cases hcut : (cut 125 (x :: s)).2 with
                | some after => rfl
                | none => exact absurd (cut_eq_none hcut ▸ hmem) (not_mem_cut 125 _)
              · -- a placeholder with the question mark in its name
                rw [cut_append_of_not_mem _ hmem] at h
                split at h
                · refine absurd ?_ h
                  rw [cut, if_neg (by decide)]
                  exact List.mem_append_right _ List.mem_cons_self
                · exact h.elim
      · next hc =>
          rw [if_neg hc] at h
          split
          · split <;> rfl
          · rfl

/-- **A template is cut at a question mark between its pieces.** -/
theorem pieces_cut {s r : Bytes} (h : ∀ p ∈ pieces (s ++ 63 :: r), Clean p) :
    pieces (s ++ 63 :: r) = pieces s ++ .byte 63 :: pieces r := by
  fun_induction pieces s with
  | case1 =>
      rw [List.nil_append, List.nil_append, pieces]
      rfl
  | case2 c rest ih =>
      rw [List.cons_append, pieces] at h ⊢
      have hnext := nextPiece_append (h _ List.mem_cons_self)
      rw [hnext] at h ⊢
      rw [ih fun p hp => h p (List.mem_cons_of_mem _ hp), List.cons_append]

/-! ### Checked templates -/

/-- Pieces without problems are bytes or placeholders with a good name. -/
theorem parsePieces_nil {ps : List Piece} (h : (parsePieces ps).2 = []) :
    ∀ p ∈ ps, (∃ b, p = .byte b) ∨
      ∃ name ∈ (parsePieces ps).1, p = .placeholder name ∧ placeholderIssue name = none := by
  induction ps with
  | nil => exact fun p hp => absurd hp List.not_mem_nil
  | cons q ps ih =>
      intro p hp
      cases q with
      | byte b =>
          rcases List.mem_cons.1 hp with rfl | hp
          · exact .inl ⟨b, rfl⟩
          · exact ih h p hp
      | placeholder name =>
          rw [parsePieces] at h ⊢
          split
          · next hissue =>
              rw [hissue] at h
              cases h
          · next hissue =>
              rw [hissue] at h
              rcases List.mem_cons.1 hp with rfl | hp
              · exact .inr ⟨name, List.mem_cons_self, rfl, hissue⟩
              · rcases ih h p hp with hb | ⟨name', hname, hrest⟩
                · exact .inl hb
                · exact .inr ⟨name', List.mem_cons_of_mem _ hname, hrest⟩
      | unclosed => cases h
      | unmatched => cases h

/-- Sound pieces without placeholders are static. -/
theorem isStatic_of_parse {entity : RecipeEntity A} {ps : List Piece}
    (hsound : ∀ p ∈ ps, Sound entity p) (h : (parsePieces ps).1 = []) : IsStatic ps := by
  induction ps with
  | nil => exact fun p hp => absurd hp List.not_mem_nil
  | cons q ps ih =>
      have hq := hsound q List.mem_cons_self
      have ih := ih fun p hp => hsound p (List.mem_cons_of_mem _ hp)
      cases q with
      | byte b =>
          intro p hp
          rcases List.mem_cons.1 hp with rfl | hp
          · exact ⟨b, rfl⟩
          · exact ih h p hp
      | placeholder name =>
          rw [parsePieces, hq.1] at h
          cases h
      | unclosed => exact hq.elim
      | unmatched => exact hq.elim

/-- **The pieces of a checked template are sound.** -/
theorem sound_of_valid {entity : RecipeEntity A} {value location : Bytes}
    (h : validateActionTemplate value location (some entity) = []) :
    ∀ p ∈ pieces value, Sound entity p := by
  unfold validateActionTemplate at h
  obtain ⟨hissues, hnames⟩ := List.append_eq_nil_iff.1 h
  intro p hp
  rcases parsePieces_nil (List.map_eq_nil_iff.1 hissues) p hp with ⟨b, rfl⟩ | ⟨name, hname, rfl, hissue⟩
  · trivial
  · rw [if_neg (List.ne_nil_of_mem hname)] at hnames
    have hattr := List.flatMap_eq_nil_iff.1 hnames name hname
    refine ⟨hissue, ?_⟩
    by_cases hid : name = bytes "external_id"
    · exact .inl hid
    · right
      rw [placeholderIssue, if_neg hid] at hissue
      unfold attributeIssue at hattr
      cases hstrip : stripPrefix (bytes "attr.") name with
      | none =>
          rw [hstrip] at hissue
          cases hissue
      | some attr =>
          rw [hstrip] at hattr
          dsimp only at hattr
          split at hattr
          · cases hattr
          · next hmem =>
              rw [issueIf_eq_nil, List.any_eq_false] at hattr
              refine ⟨attr, not_not.1 hmem, stripPrefix_eq_some.1 hstrip, fun h63 => ?_⟩
              exact hattr 63 h63 rfl

/-! ### Values in a path -/

/-- The digits are none of the bytes before the digits or between them and the letters. -/
theorem upperHexDigit_ne {n c : UInt8} (hn : n < 16) (hc : c < 48 ∨ 57 < c ∧ c < 65) :
    upperHexDigit n ≠ c := by
  rw [UInt8.lt_iff_toNat_lt] at hn
  have hcases : c.toNat < 48 ∨ 57 < c.toNat ∧ c.toNat < 65 := by
    simpa [UInt8.lt_iff_toNat_lt] using hc
  simp only [UInt8.reduceToNat] at hn
  intro h
  have heq : (upperHexDigit n).toNat = c.toNat := congrArg UInt8.toNat h
  rw [upperHexDigit] at heq
  split at heq
  · next hlt =>
      rw [UInt8.lt_iff_toNat_lt] at hlt
      simp only [UInt8.toNat_add, UInt8.reduceToNat] at heq hlt
      omega
  · next hlt =>
      rw [UInt8.lt_iff_toNat_lt] at hlt
      simp only [UInt8.toNat_add, UInt8.reduceToNat] at heq hlt
      omega

/-- An escaped byte has no slash and no question mark, and no dot unless it is one. -/
theorem escapeByte_safe {b c : UInt8} (hb : b ∉ bytes "/\\?#%;") (h : c ∈ escapeByte b) :
    c ≠ 47 ∧ c ≠ 63 ∧ (b ≠ 46 → c ≠ 46) := by
  have h47 : b ≠ 47 := fun h => hb (h ▸ by decide)
  have h63 : b ≠ 63 := fun h => hb (h ▸ by decide)
  have hhigh : b >>> 4 < 16 := by
    rw [UInt8.lt_iff_toNat_lt]
    have := b.toNat_lt
    simp only [UInt8.toNat_shiftRight, UInt8.reduceToNat, Nat.shiftRight_eq_div_pow,
      Nat.reduceMod, Nat.reducePow]
    omega
  have hlow : b &&& 15 < 16 := by
    rw [UInt8.lt_iff_toNat_lt, UInt8.toNat_and]
    exact Nat.lt_of_le_of_lt Nat.and_le_right (by decide)
  rw [escapeByte] at h
  split at h
  · obtain rfl := List.mem_singleton.1 h
    exact ⟨h47, h63, id⟩
  · simp only [List.mem_cons, List.not_mem_nil, or_false] at h
    rcases h with rfl | rfl | rfl
    · exact ⟨by decide, by decide, fun _ => by decide⟩
    · exact ⟨upperHexDigit_ne hhigh (by decide), upperHexDigit_ne hhigh (by decide),
        fun _ => upperHexDigit_ne hhigh (by decide)⟩
    · exact ⟨upperHexDigit_ne hlow (by decide), upperHexDigit_ne hlow (by decide),
        fun _ => upperHexDigit_ne hlow (by decide)⟩

theorem escapeByte_ne_nil (b : UInt8) : escapeByte b ≠ [] := by
  unfold escapeByte
  split <;> exact List.cons_ne_nil _ _

/-- A text of dots is empty, one dot, or has two dots in a row. -/
theorem exists_ne_dot {s : Bytes} (hne : s ≠ []) (hdot : s ≠ bytes ".") (hdots : ¬ bytes ".." <:+: s) :
    ∃ b ∈ s, b ≠ 46 := by
  by_contra hall
  push Not at hall
  match s, hne, hdot, hdots, hall with
  | [a], _, hdot, _, hall =>
      rw [hall a List.mem_cons_self] at hdot
      exact hdot rfl
  | a :: b :: s, _, _, hdots, hall =>
      rw [hall a List.mem_cons_self, hall b (List.mem_cons_of_mem _ List.mem_cons_self)] at hdots
      exact hdots ⟨[], s, rfl⟩

/-- **A value in a path is one segment**, and it is not made of dots. -/
theorem pathSegment_safe {s t : Bytes} (h : pathSegment s = .ok t) :
    47 ∉ t ∧ 63 ∉ t ∧ ∃ c ∈ t, c ≠ 46 := by
  obtain ⟨hvalid, ht⟩ := check_bind_eq_ok.1 h
  rw [pure_eq_ok] at ht
  subst ht
  unfold validateRefSegment at hvalid
  obtain ⟨hne, hvalid⟩ := ite_error_eq_ok.1 hvalid
  obtain ⟨hdots, hvalid⟩ := ite_error_eq_ok.1 hvalid
  obtain ⟨hchars, -⟩ := ite_error_eq_ok.1 hvalid
  obtain ⟨hdot, hdotdot⟩ := not_or.1 hdots
  have hsafe : ∀ b ∈ s, b ∉ bytes "/\\?#%;" := by
    intro b hb hmem
    refine hchars (List.any_eq_true.2 ⟨b, hb, ?_⟩)
    rw [Bool.or_eq_true]
    exact .inr (decide_eq_true hmem)
  refine ⟨fun hmem => ?_, fun hmem => ?_, ?_⟩
  · obtain ⟨b, hb, hc⟩ := List.mem_flatMap.1 hmem
    exact (escapeByte_safe (hsafe b hb) hc).1 rfl
  · obtain ⟨b, hb, hc⟩ := List.mem_flatMap.1 hmem
    exact (escapeByte_safe (hsafe b hb) hc).2.1 rfl
  · obtain ⟨b, hb, hb46⟩ := exists_ne_dot hne hdot hdotdot
    obtain ⟨c, hc⟩ := List.exists_mem_of_ne_nil _ (escapeByte_ne_nil b)
    exact ⟨c, List.mem_flatMap.2 ⟨b, hb, hc⟩, (escapeByte_safe (hsafe b hb) hc).2.2 hb46⟩

section Resolution

variable {formatFloat : UInt64 → ℕ → Bytes} {entity : RecipeEntity A} {e : SnapshotEntity}

/-! ### Resolved templates -/

/-- The text of a piece that is resolved. -/
def pieceText (formatFloat : UInt64 → ℕ → Bytes) (e : SnapshotEntity) (segments : Bool)
    (p : Piece) : Bytes :=
  match resolvePiece formatFloat (some e) segments p with
  | .ok text => text
  | .error _ => []

/-- Resolved pieces are the texts of the pieces in order. -/
theorem resolvePieces_ok {segments : Bool} {ps : List Piece} {out : Bytes}
    (h : resolvePieces formatFloat (some e) segments ps = .ok out) :
    (∀ p ∈ ps, ∃ text, resolvePiece formatFloat (some e) segments p = .ok text) ∧
      out = ps.flatMap (pieceText formatFloat e segments) := by
  induction ps generalizing out with
  | nil => exact ⟨fun p hp => absurd hp List.not_mem_nil, (Except.ok.inj h).symm⟩
  | cons q ps ih =>
      rw [resolvePieces] at h
      obtain ⟨text, hq, h⟩ := bind_eq_ok.1 h
      obtain ⟨rest, hrest, h⟩ := bind_eq_ok.1 h
      obtain ⟨hall, hout⟩ := ih hrest
      refine ⟨fun p hp => ?_, ?_⟩
      · rcases List.mem_cons.1 hp with rfl | hp
        · exact ⟨text, hq⟩
        · exact hall p hp
      · rw [List.flatMap_cons, ← hout, pieceText, hq]
        exact (Except.ok.inj h).symm

/-- Resolution fails where a piece does. -/
theorem resolvePieces_error {segments : Bool} {ps : List Piece} {cause : ActionCause}
    (h : resolvePieces formatFloat (some e) segments ps = .error cause) :
    ∃ p ∈ ps, resolvePiece formatFloat (some e) segments p = .error cause := by
  induction ps with
  | nil => cases h
  | cons q ps ih =>
      rw [resolvePieces] at h
      rcases bind_eq_error.1 h with hq | ⟨text, -, h⟩
      · exact ⟨q, List.mem_cons_self, hq⟩
      · rcases bind_eq_error.1 h with hrest | ⟨rest, -, h⟩
        · obtain ⟨p, hp, hcause⟩ := ih hrest
          exact ⟨p, List.mem_cons_of_mem _ hp, hcause⟩
        · cases h

/-- The value of a sound placeholder is missing only for a cause in the values. -/
theorem placeholderValue_error {name : Bytes} {cause : ActionCause}
    (hname : Sound entity (.placeholder name))
    (h : actionPlaceholderValue formatFloat name (some e) = .error cause) : OfValue entity cause := by
  rcases hname.2 with rfl | ⟨attr, hattr, rfl, -⟩
  · rw [actionPlaceholderValue, if_pos rfl] at h
    dsimp only at h
    split at h
    · rw [← Except.error.inj h]
      trivial
    · cases h
  · rw [actionPlaceholderValue, if_neg (attr_ne_external_id attr), stripPrefix_append] at h
    dsimp only at h
    split at h
    · rw [← Except.error.inj h]
      exact hattr
    · rw [← Except.error.inj h]
      exact hattr
    · split at h
      · cases h
      · rw [← Except.error.inj h]
        exact hattr

/-- **A sound piece fails only for a cause in the values.** -/
theorem resolvePiece_error {segments : Bool} {p : Piece} {cause : ActionCause}
    (hp : Sound entity p) (h : resolvePiece formatFloat (some e) segments p = .error cause) :
    OfValue entity cause := by
  cases p with
  | byte b => cases h
  | placeholder name =>
      rw [resolvePiece] at h
      rcases bind_eq_error.1 h with hvalue | ⟨value, -, h⟩
      · exact placeholderValue_error hp hvalue
      · split at h
        · obtain ⟨err, -, rfl⟩ := mapError_eq_error.1 h
          trivial
        · cases h
  | unclosed => exact hp.elim
  | unmatched => exact hp.elim

theorem resolveTemplate_error {segments : Bool} {value : Bytes} {cause : ActionCause}
    (hsound : ∀ p ∈ pieces value, Sound entity p)
    (h : resolveActionTemplate formatFloat value (some e) segments = .error cause) :
    OfValue entity cause := by
  obtain ⟨p, hp, hcause⟩ := resolvePieces_error h
  exact resolvePiece_error (hsound p hp) hcause

/-- The text of static pieces does not depend on the entity. -/
theorem flatMap_pieceText_of_isStatic {segments : Bool} {ps : List Piece} (h : IsStatic ps) :
    ps.flatMap (pieceText formatFloat e segments) = staticText ps := by
  refine List.flatMap_congr fun p hp => ?_
  obtain ⟨b, rfl⟩ := h p hp
  rfl

/-- A placeholder that is resolved in a path is one segment. -/
theorem pieceText_placeholder_safe {name text : Bytes}
    (h : resolvePiece formatFloat (some e) true (.placeholder name) = .ok text) :
    47 ∉ pieceText formatFloat e true (.placeholder name) ∧
      63 ∉ pieceText formatFloat e true (.placeholder name) ∧
        ∃ c ∈ pieceText formatFloat e true (.placeholder name), c ≠ 46 := by
  rw [pieceText, h]
  rw [resolvePiece] at h
  obtain ⟨value, -, h⟩ := bind_eq_ok.1 h
  rw [if_pos rfl, mapError_eq_ok] at h
  exact pathSegment_safe h

/-! ### The path -/

/-- **The path of a resolved action**: the texts of the pieces before the question mark, and the
static text of the query string after it. -/
theorem resolvePath_ok {path out : Bytes} (hsound : ∀ p ∈ pieces path, Sound entity p)
    (hquery : ∀ q, (cut 63 path).2 = some q → (parseActionPlaceholders q).1 = [])
    (h : resolvePath formatFloat (some e) path = .ok out) :
    (∀ p ∈ pieces (cut 63 path).1, ∃ text, resolvePiece formatFloat (some e) true p = .ok text) ∧
      cut 63 out = ((pieces (cut 63 path).1).flatMap (pieceText formatFloat e true),
        (cut 63 path).2.map fun q => staticText (pieces q)) := by
  rw [resolvePath] at h
  obtain ⟨text, htext, h⟩ := bind_eq_ok.1 h
  obtain ⟨hall, rfl⟩ := resolvePieces_ok htext
  refine ⟨hall, ?_⟩
  -- neither a byte before the question mark nor a value is one
  have hmark : (63 : UInt8) ∉
      (pieces (cut 63 path).1).flatMap (pieceText formatFloat e true) := by
    intro hmem
    obtain ⟨p, hp, h63⟩ := List.mem_flatMap.1 hmem
    obtain ⟨t, ht⟩ := hall p hp
    cases p with
    | byte b =>
        have hb : b = 63 := (List.mem_singleton.1 h63).symm
        rw [hb] at hp
        exact not_mem_cut 63 path (mem_of_byte_mem_pieces hp)
    | placeholder name => exact (pieceText_placeholder_safe ht).2.1 h63
    | unclosed => cases ht
    | unmatched => cases ht
  cases hcut : (cut 63 path).2 with
  | none =>
      rw [hcut] at h
      rw [← Except.ok.inj h]
      exact cut_of_not_mem hmark
  | some query =>
      rw [hcut] at h
      have hplaceholders := hquery query hcut
      dsimp only at h
      rw [if_neg (by simp [hplaceholders])] at h
      obtain ⟨queryString, hresolved, h⟩ := bind_eq_ok.1 h
      have hpath := cut_eq_some hcut
      have hpieces : ∀ p ∈ pieces query, Sound entity p := by
        intro p hp
        refine hsound p ?_
        rw [hpath, pieces_cut (by rw [← hpath]; exact fun p hp => (hsound p hp).clean)]
        exact List.mem_append_right _ (List.mem_cons_of_mem _ hp)
      have hstatic : IsStatic (pieces query) := isStatic_of_parse hpieces hplaceholders
      obtain ⟨-, hstring⟩ := resolvePieces_ok hresolved
      rw [flatMap_pieceText_of_isStatic hstatic] at hstring
      rw [← Except.ok.inj h, hstring]
      exact cut_append _ hmark

/-- The segments of a resolved path are the texts of the segments of the template. -/
theorem pathSegments_of_resolved {path out : Bytes}
    (hall : ∀ p ∈ pieces (cut 63 path).1,
      ∃ text, resolvePiece formatFloat (some e) true p = .ok text)
    (hcut : (cut 63 out).1 = (pieces (cut 63 path).1).flatMap (pieceText formatFloat e true)) :
    pathSegments out =
      (templateSegments path).map (List.flatMap (pieceText formatFloat e true)) := by
  rw [pathSegments, hcut, templateSegments]
  refine splitOn_flatMap rfl fun p hp hne => ?_
  obtain ⟨text, htext⟩ := hall p hp
  cases p with
  | byte b =>
      intro hmem
      rw [List.mem_singleton.1 hmem] at hne
      exact hne rfl
  | placeholder name => exact (pieceText_placeholder_safe htext).1
  | unclosed => cases htext
  | unmatched => cases htext

/-- A segment that becomes a dot segment is static. -/
theorem isStatic_of_dots {segment : List Piece}
    (hall : ∀ p ∈ segment, ∃ text, resolvePiece formatFloat (some e) true p = .ok text)
    (hdots : ∀ c ∈ segment.flatMap (pieceText formatFloat e true), c = 46) : IsStatic segment := by
  intro p hp
  obtain ⟨text, htext⟩ := hall p hp
  cases p with
  | byte b => exact ⟨b, rfl⟩
  | placeholder name =>
      obtain ⟨c, hc, hne⟩ := (pieceText_placeholder_safe htext).2.2
      exact absurd (hdots c (List.mem_flatMap.2 ⟨_, hp, hc⟩)) hne
  | unclosed => cases htext
  | unmatched => cases htext

/-! ### The query and the body -/

theorem resolveQuery_keys {query out : List (Bytes × Bytes)}
    (h : resolveQuery formatFloat (some e) query = .ok out) :
    out.map Prod.fst = query.map Prod.fst := by
  induction query generalizing out with
  | nil => rw [← Except.ok.inj h]
  | cons entry query ih =>
      rw [resolveQuery] at h
      obtain ⟨text, -, h⟩ := bind_eq_ok.1 h
      obtain ⟨rest, hrest, h⟩ := bind_eq_ok.1 h
      rw [← Except.ok.inj h, List.map_cons, List.map_cons, ih hrest]

theorem resolveQuery_error {query : List (Bytes × Bytes)} {err : ActionError}
    (hsound : ∀ entry ∈ query, ∀ p ∈ pieces entry.2, Sound entity p)
    (h : resolveQuery formatFloat (some e) query = .error err) : OfValue entity err.cause := by
  induction query with
  | nil => cases h
  | cons entry query ih =>
      rw [resolveQuery] at h
      rcases bind_eq_error.1 h with htext | ⟨text, -, h⟩
      · obtain ⟨cause, hcause, rfl⟩ := mapError_eq_error.1 htext
        exact resolveTemplate_error (hsound entry List.mem_cons_self) hcause
      · rcases bind_eq_error.1 h with hrest | ⟨rest, -, h⟩
        · exact ih (fun entry' hentry => hsound entry' (List.mem_cons_of_mem _ hentry)) hrest
        · cases h

mutual

/-- **A resolved body has the shape of its template.** -/
theorem sameShape_of_resolved : ∀ {v w : BodyValue},
    resolveActionBody formatFloat (some e) v = .ok w → SameShape v w
  | .string s, w, h => by
      rw [resolveActionBody] at h
      obtain ⟨text, -, h⟩ := bind_eq_ok.1 h
      rw [← Except.ok.inj h]
      exact .string s text
  | .array items, w, h => by
      rw [resolveActionBody] at h
      obtain ⟨out, hout, h⟩ := bind_eq_ok.1 h
      rw [← Except.ok.inj h]
      exact .array (sameShape_items hout)
  | .object anyKeys members, w, h => by
      rw [resolveActionBody] at h
      obtain ⟨out, hout, h⟩ := bind_eq_ok.1 h
      rw [← Except.ok.inj h]
      exact .object (sameShape_members hout).1 (sameShape_members hout).2
  | .null, w, h => Except.ok.inj h ▸ .refl _
  | .bool _, w, h => Except.ok.inj h ▸ .refl _
  | .int _, w, h => Except.ok.inj h ▸ .refl _
  | .float _, w, h => Except.ok.inj h ▸ .refl _
  | .time, w, h => Except.ok.inj h ▸ .refl _
  | .other _, w, h => Except.ok.inj h ▸ .refl _

theorem sameShape_items : ∀ {vs ws : List BodyValue},
    resolveBodyItems formatFloat (some e) vs = .ok ws → List.Forall₂ SameShape vs ws
  | [], ws, h => Except.ok.inj h ▸ .nil
  | v :: vs, ws, h => by
      rw [resolveBodyItems] at h
      obtain ⟨w, hw, h⟩ := bind_eq_ok.1 h
      obtain ⟨rest, hrest, h⟩ := bind_eq_ok.1 h
      rw [← Except.ok.inj h]
      exact .cons (sameShape_of_resolved hw) (sameShape_items hrest)

theorem sameShape_members : ∀ {ms ns : List (Option Bytes × BodyValue)},
    resolveBodyMembers formatFloat (some e) ms = .ok ns →
      ms.map Prod.fst = ns.map Prod.fst ∧
        List.Forall₂ SameShape (ms.map Prod.snd) (ns.map Prod.snd)
  | [], ns, h => Except.ok.inj h ▸ ⟨rfl, .nil⟩
  | (key, v) :: ms, ns, h => by
      rw [resolveBodyMembers] at h
      obtain ⟨-, h⟩ := ite_error_eq_ok.1 h
      obtain ⟨w, hw, h⟩ := bind_eq_ok.1 h
      obtain ⟨rest, hrest, h⟩ := bind_eq_ok.1 h
      obtain ⟨hkeys, hvalues⟩ := sameShape_members hrest
      rw [← Except.ok.inj h]
      exact ⟨congrArg (key :: ·) hkeys, .cons (sameShape_of_resolved hw) hvalues⟩

end

mutual

/-- **The body of a checked action fails only for a cause in the values.** -/
theorem resolveActionBody_error : ∀ {v : BodyValue} {depth : ℕ} {location : Bytes}
    {cause : ActionCause}, validateJSONValue v depth = none →
      validateActionBodyTemplates (some entity) v location = [] →
        resolveActionBody formatFloat (some e) v = .error cause → OfValue entity cause
  | .string s, depth, location, cause, _, ht, h => by
      rw [validateActionBodyTemplates] at ht
      rw [resolveActionBody] at h
      rcases bind_eq_error.1 h with htext | ⟨text, -, h⟩
      · exact resolveTemplate_error (sound_of_valid ht) htext
      · cases h
  | .array items, depth, location, cause, hj, ht, h => by
      rw [validateJSONValue] at hj
      rw [validateActionBodyTemplates] at ht
      rw [resolveActionBody] at h
      split at hj
      · cases hj
      · rcases bind_eq_error.1 h with hout | ⟨out, -, h⟩
        · exact resolveBodyItems_error hj ht hout
        · cases h
  | .object anyKeys members, depth, location, cause, hj, ht, h => by
      rw [validateJSONValue] at hj
      rw [validateActionBodyTemplates] at ht
      rw [resolveActionBody] at h
      split at hj
      · cases hj
      · rcases bind_eq_error.1 h with hout | ⟨out, -, h⟩
        · exact resolveBodyMembers_error hj ht hout
        · cases h
  | .null, _, _, _, _, _, h => by cases h
  | .bool _, _, _, _, _, _, h => by cases h
  | .int _, _, _, _, _, _, h => by cases h
  | .float _, _, _, _, _, _, h => by cases h
  | .time, _, _, _, _, _, h => by cases h
  | .other _, _, _, _, _, _, h => by cases h

theorem resolveBodyItems_error : ∀ {vs : List BodyValue} {depth i : ℕ} {location : Bytes}
    {cause : ActionCause}, validateJSONItems vs depth = none →
      validateItemTemplates (some entity) vs i location = [] →
        resolveBodyItems formatFloat (some e) vs = .error cause → OfValue entity cause
  | [], _, _, _, _, _, _, h => by cases h
  | v :: vs, depth, i, location, cause, hj, ht, h => by
      rw [validateJSONItems, Option.or_eq_none_iff] at hj
      rw [validateItemTemplates, List.append_eq_nil_iff] at ht
      rw [resolveBodyItems] at h
      rcases bind_eq_error.1 h with hv | ⟨w, -, h⟩
      · exact resolveActionBody_error hj.1 ht.1 hv
      · rcases bind_eq_error.1 h with hrest | ⟨rest, -, h⟩
        · exact resolveBodyItems_error hj.2 ht.2 hrest
        · cases h

theorem resolveBodyMembers_error : ∀ {ms : List (Option Bytes × BodyValue)} {depth : ℕ}
    {location : Bytes} {cause : ActionCause}, validateJSONMembers ms depth = none →
      validateMemberTemplates (some entity) ms location = [] →
        resolveBodyMembers formatFloat (some e) ms = .error cause → OfValue entity cause
  | [], _, _, _, _, _, h => by cases h
  | (none, v) :: ms, depth, location, cause, hj, _, _ => by
      rw [validateJSONMembers, if_pos rfl] at hj
      cases hj
  | (some key, v) :: ms, depth, location, cause, hj, ht, h => by
      rw [validateJSONMembers, if_neg (by simp), Option.or_eq_none_iff] at hj
      rw [validateMemberTemplates, List.append_eq_nil_iff] at ht
      rw [resolveBodyMembers, if_neg (by simp)] at h
      rcases bind_eq_error.1 h with hv | ⟨w, -, h⟩
      · exact resolveActionBody_error hj.1 ht.1 hv
      · rcases bind_eq_error.1 h with hrest | ⟨rest, -, h⟩
        · exact resolveBodyMembers_error hj.2 ht.2 hrest
        · cases h

end

/-! ### The action -/

/-- What a checked action promises to its resolution. -/
structure ActionOk (entity : RecipeEntity A) (action : RecipeAction) : Prop where
  path : ∀ p ∈ pieces action.path, Sound entity p
  pathQuery : ∀ q, (cut 63 action.path).2 = some q → (parseActionPlaceholders q).1 = []
  query : ∀ entry ∈ action.query, ∀ p ∈ pieces entry.2, Sound entity p
  body : action.hasBody = true ∨ action.body.isNull = false →
    validateJSONValue action.body 0 = none ∧
      ∃ location, validateActionBodyTemplates (some entity) action.body location = []

theorem bodyIssues_nil {action : RecipeAction} {location : Bytes}
    (h : bodyIssues (some entity) action location = [])
    (hbody : action.hasBody = true ∨ action.body.isNull = false) :
    validateJSONValue action.body 0 = none ∧
      ∃ location, validateActionBodyTemplates (some entity) action.body location = [] := by
  have hcondition : (action.hasBody || !action.body.isNull) = true := by
    rcases hbody with h | h <;> simp [h]
  rw [bodyIssues, if_pos hcondition] at h
  split at h
  · cases h
  · next hvalue =>
      split at h
      · cases h
      · exact ⟨hvalue, location, h⟩

theorem actionOk_of_valid {urlParse : Bytes → Option Url} {base name : Bytes}
    {action : RecipeAction} (h : actionIssues urlParse (some entity) base name action = []) :
    ActionOk entity action := by
  simp only [actionIssues, List.append_eq_nil_iff] at h
  obtain ⟨⟨⟨⟨⟨⟨⟨⟨-, hquery⟩, -⟩, hbody⟩, -⟩, -⟩, -⟩, hpath⟩, hcut⟩ := h
  refine ⟨sound_of_valid hpath, fun q hq => ?_, fun entry hentry => ?_, bodyIssues_nil hbody⟩
  · rw [hq] at hcut
    simpa [issueIf_eq_nil] using hcut
  · have hmem : entry ∈ sortedEntries action.query := List.mem_mergeSort.2 hentry
    exact sound_of_valid (List.flatMap_eq_nil_iff.1 hquery entry hmem)

theorem actionOk_of_validSet {urlParse : Bytes → Option Url} {actions : List (Bytes × RecipeAction)}
    {base : Bytes} (h : validateActionSet urlParse actions (some entity) base = []) {name : Bytes}
    {action : RecipeAction} (ha : (name, action) ∈ actions) : ActionOk entity action := by
  have hmem : (name, action) ∈ sortedEntries actions := List.mem_mergeSort.2 ha
  unfold validateActionSet at h
  rw [List.append_eq_nil_iff, List.flatMap_eq_nil_iff] at h
  have haction := h.2 (name, action) hmem
  dsimp only at haction
  exact actionOk_of_valid haction

/-- Each entity action of a checked recipe is checked. -/
theorem actionOk_of_mem {urlParse : Bytes → Option Url} {endpoints : List (EntityActions A)} {i : ℕ}
    {declaredKinds : List Bytes} (h : validateEntityActions urlParse endpoints i declaredKinds = [])
    {endpoint : EntityActions A} (he : endpoint ∈ endpoints) {name : Bytes} {action : RecipeAction}
    (ha : (name, action) ∈ endpoint.actions) : ActionOk endpoint.entity action := by
  induction endpoints generalizing i declaredKinds with
  | nil => exact absurd he List.not_mem_nil
  | cons first rest ih =>
      rw [validateEntityActions] at h
      rcases List.mem_cons.1 he with rfl | he
      · rw [if_neg (List.ne_nil_of_mem ha)] at h
        simp only [List.append_eq_nil_iff] at h
        exact actionOk_of_validSet h.1.2 ha
      · split at h
        · exact ih h he
        · simp only [List.append_eq_nil_iff] at h
          exact ih h.2 he

/-- **A resolved action addresses what its template does.** -/
theorem addresses_of_resolved {action r : RecipeAction} (hok : ActionOk entity action)
    (h : resolveRecipeAction formatFloat action (some e) = .ok r) : Addresses action r := by
  rw [resolveRecipeAction] at h
  obtain ⟨path, hpath, h⟩ := bind_eq_ok.1 h
  obtain ⟨query, hquery, h⟩ := bind_eq_ok.1 h
  obtain ⟨body, hbody, h⟩ := bind_eq_ok.1 h
  obtain rfl := Except.ok.inj h
  obtain ⟨hall, hcut⟩ := resolvePath_ok hok.path hok.pathQuery (mapError_eq_ok.1 hpath)
  have hsegments : pathSegments path = (templateSegments action.path).map
      (List.flatMap (pieceText formatFloat e true)) :=
    pathSegments_of_resolved hall (congrArg Prod.fst hcut)
  refine ⟨?_, ?_, ?_, congrArg Prod.snd hcut, resolveQuery_keys hquery, ?_⟩
  · show (pathSegments path).length = _
    rw [hsegments, List.length_map]
  · intro i segment hi hstatic
    show (pathSegments path)[i]? = _
    rw [hsegments, List.getElem?_map, hi, Option.map_some, flatMap_pieceText_of_isStatic hstatic]
  · intro i p hp hdots
    have hp : (pathSegments path)[i]? = some p := hp
    rw [hsegments, List.getElem?_map] at hp
    obtain ⟨segment, hi, rfl⟩ := Option.map_eq_some_iff.1 hp
    have hresolved : ∀ p ∈ segment,
        ∃ text, resolvePiece formatFloat (some e) true p = .ok text := by
      intro p hp
      exact hall p (mem_of_mem_splitOn (List.mem_of_getElem? hi) hp)
    have hstatic : IsStatic segment := by
      refine isStatic_of_dots hresolved fun c hc => ?_
      rcases hdots with hdot | hdot
      · rw [hdot] at hc
        exact List.mem_singleton.1 hc
      · rw [hdot] at hc
        exact (List.mem_pair.1 hc).elim id id
    exact ⟨segment, hi, hstatic, (flatMap_pieceText_of_isStatic hstatic).symm⟩
  · show SameShape action.body body
    rw [resolveBody] at hbody
    split at hbody
    · exact sameShape_of_resolved (mapError_eq_ok.1 hbody)
    · rw [← Except.ok.inj hbody]
      exact .refl _

theorem resolvePath_error {path : Bytes} {cause : ActionCause}
    (hsound : ∀ p ∈ pieces path, Sound entity p)
    (hquery : ∀ q, (cut 63 path).2 = some q → (parseActionPlaceholders q).1 = [])
    (h : resolvePath formatFloat (some e) path = .error cause) : OfValue entity cause := by
  have hpieces : ∀ q, (cut 63 path).2 = some q →
      pieces path = pieces (cut 63 path).1 ++ .byte 63 :: pieces q := by
    intro q hq
    have hpath := cut_eq_some hq
    conv_lhs => rw [hpath]
    exact pieces_cut (by rw [← hpath]; exact fun p hp => (hsound p hp).clean)
  have hfirst : ∀ p ∈ pieces (cut 63 path).1, Sound entity p := by
    intro p hp
    cases hq : (cut 63 path).2 with
    | none => exact hsound p (by rwa [cut_eq_none hq] at hp)
    | some q => exact hsound p (by rw [hpieces q hq]; exact List.mem_append_left _ hp)
  rw [resolvePath] at h
  rcases bind_eq_error.1 h with htext | ⟨text, -, h⟩
  · exact resolveTemplate_error hfirst htext
  · split at h
    · cases h
    · next q hq =>
        rw [if_neg (by simp [hquery q hq])] at h
        rcases bind_eq_error.1 h with hstring | ⟨queryString, -, h⟩
        · refine resolveTemplate_error (fun p hp => hsound p ?_) hstring
          rw [hpieces q hq]
          exact List.mem_append_right _ (List.mem_cons_of_mem _ hp)
        · cases h

/-- **A checked action fails only for a cause in the values.** -/
theorem ofValue_of_error {action : RecipeAction} {err : ActionError} (hok : ActionOk entity action)
    (h : resolveRecipeAction formatFloat action (some e) = .error err) :
    OfValue entity err.cause := by
  rw [resolveRecipeAction] at h
  rcases bind_eq_error.1 h with hpath | ⟨path, -, h⟩
  · obtain ⟨cause, hcause, rfl⟩ := mapError_eq_error.1 hpath
    exact resolvePath_error hok.path hok.pathQuery hcause
  · rcases bind_eq_error.1 h with hquery | ⟨query, -, h⟩
    · exact resolveQuery_error hok.query hquery
    · rcases bind_eq_error.1 h with hbody | ⟨body, -, h⟩
      · rw [resolveBody] at hbody
        split at hbody
        · next hcondition =>
            obtain ⟨cause, hcause, rfl⟩ := mapError_eq_error.1 hbody
            obtain ⟨hvalue, location, htemplates⟩ := hok.body (by simpa using hcondition)
            exact resolveActionBody_error hvalue htemplates hcause
        · cases hbody
      · cases h

end Resolution

/-- **Placeholders do not change what an action addresses**: for an entity action of a checked
recipe and any two entities, the resolved actions keep all that the template says of the address,
so their targets differ in the segments with placeholders only; and an action is not resolved only
where a value is missing, empty, not scalar or no path segment. -/
theorem action_target (urlParse : Bytes → Option Url) (formatFloat : UInt64 → ℕ → Bytes)
    (actions : List (Bytes × RecipeAction)) (endpoints : List (EntityActions A))
    (hvalid : validateRecipeActions urlParse actions endpoints = []) (endpoint : EntityActions A)
    (he : endpoint ∈ endpoints) (name : Bytes) (action : RecipeAction)
    (ha : (name, action) ∈ endpoint.actions) :
    (∀ e₁ e₂ r₁ r₂, resolveRecipeAction formatFloat action (some e₁) = .ok r₁ →
      resolveRecipeAction formatFloat action (some e₂) = .ok r₂ →
        Addresses action r₁ ∧ Addresses action r₂ ∧ SameTarget action r₁ r₂) ∧
      ∀ e err, resolveRecipeAction formatFloat action (some e) = .error err →
        OfValue endpoint.entity err.cause := by
  have hok : ActionOk endpoint.entity action :=
    actionOk_of_mem (List.append_eq_nil_iff.1 hvalid).2 he ha
  refine ⟨fun e₁ e₂ r₁ r₂ h₁ h₂ => ?_, fun e err h => ofValue_of_error hok h⟩
  have ha₁ := addresses_of_resolved hok h₁
  have ha₂ := addresses_of_resolved hok h₂
  exact ⟨ha₁, ha₂, ha₁.sameTarget ha₂⟩

/-- An action on a virtual machine of a node. -/
def restartAction : RecipeAction where
  method := bytes "POST"
  path := bytes "/nodes/\x7battr.node\x7d/vms/\x7bexternal_id\x7d/restart?force=1"
  query := [(bytes "vm", bytes "\x7bexternal_id\x7d")]
  headers := []
  body := .object false [(some (bytes "node"), .string (bytes "\x7battr.node\x7d"))]
  label := bytes "Restart"
  description := []
  downtimeSeconds := some 30
  hasBody := true

def vmActions : EntityActions Unit where
  entity := ⟨bytes "vm", [], [], [], [], [], [], [(bytes "node", ())]⟩
  actions := [(bytes "restart", restartAction)]

def vm (id node : Bytes) : SnapshotEntity := ⟨id, [(bytes "node", .string node)]⟩

/-- Two machines on two nodes. -/
theorem action_target_sample :
    ∃ r₁ r₂, SameTarget restartAction r₁ r₂ ∧
      r₁.path = bytes "/nodes/pve%5B1%5D/vms/100/restart?force=1" ∧
      r₂.path = bytes "/nodes/pve2/vms/7/restart?force=1" := by
  have h₁ : (resolveRecipeAction (fun _ _ => []) restartAction
      (some (vm (bytes "100") (bytes "pve[1]")))).toOption.map RecipeAction.path =
        some (bytes "/nodes/pve%5B1%5D/vms/100/restart?force=1") := by
    decide +kernel
  have h₂ : (resolveRecipeAction (fun _ _ => []) restartAction
      (some (vm (bytes "7") (bytes "pve2")))).toOption.map RecipeAction.path =
        some (bytes "/nodes/pve2/vms/7/restart?force=1") := by
    decide +kernel
  have htarget := action_target (fun _ => some ⟨[], [], []⟩) (fun _ _ => []) [] [vmActions]
    (by decide +kernel) vmActions List.mem_cons_self (bytes "restart") restartAction
    List.mem_cons_self
  cases hr₁ : resolveRecipeAction (fun _ _ => []) restartAction
      (some (vm (bytes "100") (bytes "pve[1]"))) with
  | error err =>
      rw [hr₁] at h₁
      cases h₁
  | ok r₁ =>
      cases hr₂ : resolveRecipeAction (fun _ _ => []) restartAction
          (some (vm (bytes "7") (bytes "pve2"))) with
      | error err =>
          rw [hr₂] at h₂
          cases h₂
      | ok r₂ =>
          rw [hr₁] at h₁
          rw [hr₂] at h₂
          exact ⟨r₁, r₂, (htarget.1 _ _ r₁ r₂ hr₁ hr₂).2.2, Option.some.inj h₁, Option.some.inj h₂⟩

end WiseLabz.Recipe
