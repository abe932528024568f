/-
**Generated-block markers: parsing and rendering the segments of a doc.**

Content that sync owns is wrapped in a pair of marker lines; everything else in a doc is
human-owned text.  This module is the program's own code for the two directions: the scanner that
splits a doc into text and block segments, with its index arithmetic, and the printer that writes
segments back.  Both loops of the scanner take an explicit bound and give up with `none` when it
runs out, so that termination is a statement about them (`WiseLabz/Doc/Lines.lean`).

Main definitions:

* `Doc.Block`, `Doc.newBlock`, `Doc.Block.edited`, `Doc.hashBody` — generated blocks;
* `Doc.Segment` — text or a block;
* `Doc.openMarkerRe` — the pattern of an opening marker line, with its two groups;
* `Doc.parseBlocks`, `Doc.lineEnd`, `Doc.renderSegments` — the scanner and the printer;
* `Doc.renderFresh`, `Doc.blockKeys`, `Doc.blocksOf` — the layout of a new doc, and its keys.

Main results:

* `Doc.openMarkerRe_eq_some` — which lines are opening markers;
* `Doc.openMarkerRe_openLine` — the line printed for a block with a well-formed key and hash is one.
-/

import WiseLabz.Lib.Bytes

set_option relaxedAutoImplicit false
set_option autoImplicit false

namespace WiseLabz.Doc

open Lib

/-! ### Marker lines -/

/-- The byte that ends a line. -/
def newline : UInt8 := 10

/-- The closing marker line. -/
def closeMarker : Bytes := bytes "<!-- /wl:gen -->"

/-- The class `[A-Za-z0-9._-]` of the marker keys. -/
def isKeyChar (b : UInt8) : Bool :=
  (65 ≤ b && b ≤ 90) || (97 ≤ b && b ≤ 122) || (48 ≤ b && b ≤ 57) || b == 46 || b == 95 || b == 45

/-- `[A-Za-z0-9._-]+`, the keys a marker can carry. -/
def KeyOk (key : Bytes) : Prop := key ≠ [] ∧ ∀ b ∈ key, isKeyChar b = true

/-- `[0-9a-f]{12}`, the hashes a marker can carry. -/
def HashOk (hash : Bytes) : Prop := hash.length = 12 ∧ ∀ b ∈ hash, isHexChar b = true

instance (key : Bytes) : Decidable (KeyOk key) := inferInstanceAs (Decidable (_ ∧ _))

instance (hash : Bytes) : Decidable (HashOk hash) := inferInstanceAs (Decidable (_ ∧ _))

/-- `openMarkerRe.FindStringSubmatch`: the key and the hash of an opening marker line.  A key
character is never a quote, so the greedy group of the pattern is the longest run of them. -/
def openMarkerRe (line : Bytes) : Option (Bytes × Bytes) :=
  match stripPrefix (bytes "<!-- wl:gen key=\"") line with
  | none => none
  | some r =>
      match stripPrefix (bytes "\" h=\"") (r.dropWhile isKeyChar) with
      | none => none
      | some t =>
          if KeyOk (r.takeWhile isKeyChar) ∧ HashOk (t.take 12) ∧ t.drop 12 = bytes "\" -->" then
            some (r.takeWhile isKeyChar, t.take 12)
          else none

/-- The line matches the opening marker pattern. -/
def isOpen (line : Bytes) : Bool := (openMarkerRe line).isSome

/-! ### Blocks -/

/-- One generated section of a doc. -/
structure Block where
  /-- The key of the section, stable across syncs. -/
  key : Bytes
  /-- The hash of the body when it was last generated. -/
  hash : Bytes
  /-- The text between the two marker lines. -/
  body : Bytes
  deriving DecidableEq, Repr

/-- The 12-hex-character marker hash of a block body. -/
def hashBody (body : Bytes) : Bytes := (hexEncode (Sha256.sum body)).take 12

/-- Scans for the two marker openings and writes their neutral forms, each match once and without
overlap; `skip` counts the bytes of a match that are still to be dropped. -/
def neutralise : ℕ → Bytes → Bytes
  | _, [] => []
  | skip + 1, _ :: s => neutralise skip s
  | 0, b :: s =>
      if (bytes "<!-- wl:gen").isPrefixOf (b :: s) then
        bytes "<!-- wl-gen" ++ neutralise 10 s
      else if (bytes "<!-- /wl:gen").isPrefixOf (b :: s) then
        bytes "<!-- /wl-gen" ++ neutralise 11 s
      else b :: neutralise 0 s

/-- A freshly generated block, with the marker lookalikes in its body neutralised. -/
def newBlock (key body : Bytes) : Block :=
  let body := neutralise 0 body
  ⟨key, hashBody body, body⟩

/-- Whether the body was changed since it was generated. -/
def Block.edited (b : Block) : Bool := hashBody b.body != b.hash

/-- A piece of a doc: human-owned text or a generated block. -/
inductive Segment
  | text (t : Bytes)
  | block (b : Block)
  deriving DecidableEq, Repr

/-! ### Parsing -/

/-- `s[i:j]`. -/
def slice (s : Bytes) (i j : ℕ) : Bytes := (s.drop i).take (j - i)

/-- Where the line that contains position `i` ends: at the next newline, or at the end of `s`. -/
def lineEnd (s : Bytes) (i : ℕ) : ℕ :=
  match (s.drop i).idxOf? newline with
  | some k => i + k
  | none => s.length

/-- The inner loop: from the line at `q`, the bounds of the first closing marker line that is not
the first line of the body, unless an opening marker or the last line comes first. -/
def closeLoop (content : Bytes) (bodyStart : ℕ) : ℕ → ℕ → Option (Option (ℕ × ℕ))
  | 0, _ => none
  | fuel + 1, q =>
      if q ≤ content.length then
        let qe := lineEnd content q
        let line := slice content q qe
        if line = closeMarker ∧ bodyStart < q then some (some (q, qe))
        else if isOpen line ∨ qe = content.length then some none
        else closeLoop content bodyStart fuel (qe + 1)
      else some none

/-- The outer loop: `p` is the start of the current line, `textStart` the end of the last block. -/
def parseLoop (content : Bytes) : ℕ → ℕ → ℕ → List Segment → Option (List Segment)
  | 0, _, _, _ => none
  | fuel + 1, p, textStart, segs =>
      if p < content.length then
        let eol := lineEnd content p
        match openMarkerRe (slice content p eol) with
        | none => parseLoop content fuel (eol + 1) textStart segs
        | some (key, hash) =>
            if eol = content.length then parseLoop content fuel (eol + 1) textStart segs
            else
              let bodyStart := eol + 1
              match closeLoop content bodyStart (content.length + 1) bodyStart with
              | none => none
              | some none => parseLoop content fuel (eol + 1) textStart segs
              | some (some (closeAt, closeEnd)) =>
                  let segs :=
                    if textStart < p then segs ++ [.text (slice content textStart p)] else segs
                  let segs := segs ++ [.block ⟨key, hash, slice content bodyStart (closeAt - 1)⟩]
                  parseLoop content fuel (closeEnd + 1) closeEnd segs
      else
        some (if textStart < content.length then
          segs ++ [.text (slice content textStart content.length)] else segs)

/-- **Splits content into text and block segments.**  Anything that is not a well-formed block
stays text. -/
def parseBlocks (content : Bytes) : List Segment :=
  (parseLoop content (content.length + 1) 0 0 []).getD []

/-! ### Rendering -/

/-- One byte of a `%q` string.  Keys and hashes are ASCII; a byte outside ASCII is written as the
escape of an invalid byte. -/
def quoteByte (b : UInt8) : Bytes :=
  if b = 34 ∨ b = 92 then [92, b]
  else if 32 ≤ b ∧ b < 127 then [b]
  else
    match b with
    | 7 => bytes "\\a"
    | 8 => bytes "\\b"
    | 9 => bytes "\\t"
    | 10 => bytes "\\n"
    | 11 => bytes "\\v"
    | 12 => bytes "\\f"
    | 13 => bytes "\\r"
    | _ => bytes "\\x" ++ hexEncode [b]

/-- `%q`. -/
def quote (s : Bytes) : Bytes := 34 :: s.flatMap quoteByte ++ [34]

/-- The opening marker line of a block. -/
def openLine (b : Block) : Bytes :=
  bytes "<!-- wl:gen key=" ++ quote b.key ++ bytes " h=" ++ quote b.hash ++ bytes " -->"

/-- One rendered segment. -/
def renderSegment : Segment → Bytes
  | .text t => t
  | .block b => openLine b ++ newline :: b.body ++ newline :: closeMarker

/-- **The inverse of `parseBlocks`.** -/
def renderSegments (segs : List Segment) : Bytes := segs.flatMap renderSegment

/-- The segments of a newly generated doc: blocks separated by a blank line, ending with a
newline. -/
def freshSegments (blocks : List Block) : List Segment :=
  match blocks with
  | [] => []
  | b :: bs =>
      .block b :: bs.flatMap (fun b => [.text [newline, newline], .block b]) ++ [.text [newline]]

/-- A newly generated doc. -/
def renderFresh (blocks : List Block) : Bytes := renderSegments (freshSegments blocks)

/-- The keys of blocks in order. -/
def blockKeys (blocks : List Block) : List Bytes := blocks.map (·.key)

/-- The block of a segment, if it is one. -/
def Segment.block? : Segment → Option Block
  | .text _ => none
  | .block b => some b

/-- The blocks among the segments. -/
def blocksOf (segs : List Segment) : List Block := segs.filterMap Segment.block?

/-! ### The opening marker pattern -/

@[simp] theorem closeMarker_ne_nil : closeMarker ≠ [] := by decide

theorem newline_notMem_closeMarker : newline ∉ closeMarker := by decide

@[simp] theorem isOpen_nil : isOpen [] = false := by decide

@[simp] theorem isOpen_closeMarker : isOpen closeMarker = false := by decide

theorem isKeyChar_spec {b : UInt8} (h : isKeyChar b = true) :
    b ≠ 34 ∧ b ≠ 92 ∧ 32 ≤ b ∧ b < 127 := by
  refine ⟨?_, ?_, ?_⟩
  · rintro rfl; simp [isKeyChar] at h
  · rintro rfl; simp [isKeyChar] at h
  · simp only [isKeyChar, Bool.or_eq_true, Bool.and_eq_true, decide_eq_true_eq, beq_iff_eq,
      UInt8.le_iff_toNat_le, UInt8.lt_iff_toNat_lt, ← UInt8.toNat_inj] at h ⊢
    simp at h ⊢
    omega

theorem isHexChar_spec {b : UInt8} (h : isHexChar b = true) :
    b ≠ 34 ∧ b ≠ 92 ∧ 32 ≤ b ∧ b < 127 := by
  refine ⟨?_, ?_, ?_⟩
  · rintro rfl; simp [isHexChar] at h
  · rintro rfl; simp [isHexChar] at h
  · simp only [isHexChar, Bool.or_eq_true, Bool.and_eq_true, decide_eq_true_eq,
      UInt8.le_iff_toNat_le, UInt8.lt_iff_toNat_lt] at h ⊢
    simp at h ⊢
    omega

/-- Quoting adds nothing but the quotes when every byte is plain. -/
theorem quote_of_plain {s : Bytes} (h : ∀ b ∈ s, b ≠ 34 ∧ b ≠ 92 ∧ 32 ≤ b ∧ b < 127) :
    quote s = 34 :: s ++ [34] := by
  have hs : s.flatMap quoteByte = s := by
    induction s with
    | nil => rfl
    | cons b s ih =>
        obtain ⟨h₁, h₂, h₃⟩ := h b List.mem_cons_self
        rw [List.flatMap_cons, ih fun c hc => h c (List.mem_cons_of_mem b hc)]
        simp [quoteByte, h₁, h₂, h₃]
  rw [quote, hs]

theorem KeyOk.quote {key : Bytes} (h : KeyOk key) : quote key = 34 :: key ++ [34] :=
  quote_of_plain fun b hb => isKeyChar_spec (h.2 b hb)

theorem HashOk.quote {hash : Bytes} (h : HashOk hash) : quote hash = 34 :: hash ++ [34] :=
  quote_of_plain fun b hb => isHexChar_spec (h.2 b hb)

/-- The text of the opening marker line for a key and a hash of the marker grammar. -/
theorem openLine_eq {b : Block} (hk : KeyOk b.key) (hh : HashOk b.hash) :
    openLine b = bytes "<!-- wl:gen key=\"" ++ (b.key ++ (bytes "\" h=\"" ++ (b.hash ++
      bytes "\" -->"))) := by
  have h₁ : bytes "<!-- wl:gen key=\"" = bytes "<!-- wl:gen key=" ++ [34] := by decide
  have h₂ : bytes "\" h=\"" = [34] ++ bytes " h=" ++ [34] := by decide
  have h₃ : bytes "\" -->" = [34] ++ bytes " -->" := by decide
  simp [openLine, hk.quote, hh.quote, h₁, h₂, h₃]

/-- **The opening marker pattern**: which lines it matches, and with which groups. -/
theorem openMarkerRe_eq_some {line key hash : Bytes} :
    openMarkerRe line = some (key, hash) ↔ KeyOk key ∧ HashOk hash ∧
      line = bytes "<!-- wl:gen key=\"" ++ (key ++ (bytes "\" h=\"" ++ (hash ++
        bytes "\" -->"))) := by
  constructor
  · intro h
    unfold openMarkerRe at h
    split at h
    · simp at h
    · rename_i r hr
      split at h
      · simp at h
      · rename_i t ht
        split at h
        · rename_i hok
          simp only [Option.some.injEq, Prod.mk.injEq] at h
          obtain ⟨rfl, rfl⟩ := h
          refine ⟨hok.1, hok.2.1, ?_⟩
          rw [stripPrefix_eq_some.1 hr, ← hok.2.2, List.take_append_drop,
            ← stripPrefix_eq_some.1 ht, List.takeWhile_append_dropWhile]
        · simp at h
  · rintro ⟨hk, hh, rfl⟩
    have hq : bytes "\" h=\"" = 34 :: bytes " h=\"" := by decide
    have ht : (key ++ (bytes "\" h=\"" ++ (hash ++ bytes "\" -->"))).takeWhile isKeyChar = key := by
      rw [List.takeWhile_append_of_pos hk.2, hq]
      simp [show isKeyChar 34 = false by decide]
    have hd : (key ++ (bytes "\" h=\"" ++ (hash ++ bytes "\" -->"))).dropWhile isKeyChar
        = bytes "\" h=\"" ++ (hash ++ bytes "\" -->") := by
      rw [List.dropWhile_append_of_pos hk.2, hq]
      simp [show isKeyChar 34 = false by decide]
    have h₁ : (hash ++ bytes "\" -->").take 12 = hash := by
      rw [← hh.1, List.take_left]
    have h₂ : (hash ++ bytes "\" -->").drop 12 = bytes "\" -->" := by
      rw [← hh.1, List.drop_left]
    simp only [openMarkerRe, stripPrefix_append, ht, hd, h₁, h₂, hk, hh, and_self, if_true]

/-- **A printed opening marker is read back**, when its key and hash are of the marker grammar. -/
theorem openMarkerRe_openLine {b : Block} (hk : KeyOk b.key) (hh : HashOk b.hash) :
    openMarkerRe (openLine b) = some (b.key, b.hash) :=
  openMarkerRe_eq_some.2 ⟨hk, hh, openLine_eq hk hh⟩

theorem isOpen_openLine {b : Block} (hk : KeyOk b.key) (hh : HashOk b.hash) :
    isOpen (openLine b) = true := by simp [isOpen, openMarkerRe_openLine hk hh]

/-- A matched line is the printed marker of its groups. -/
theorem openLine_of_openMarkerRe {line key hash : Bytes} (body : Bytes)
    (h : openMarkerRe line = some (key, hash)) : openLine ⟨key, hash, body⟩ = line := by
  obtain ⟨hk, hh, rfl⟩ := openMarkerRe_eq_some.1 h
  exact openLine_eq (b := ⟨key, hash, body⟩) hk hh

/-- An opening marker line starts with the marker opening. -/
theorem isOpen_prefix {line : Bytes} (h : isOpen line = true) :
    bytes "<!-- wl:gen" <+: line := by
  obtain ⟨⟨key, hash⟩, hm⟩ := Option.isSome_iff_exists.1 h
  obtain ⟨-, -, rfl⟩ := openMarkerRe_eq_some.1 hm
  have : bytes "<!-- wl:gen key=\"" = bytes "<!-- wl:gen" ++ bytes " key=\"" := by decide
  rw [this, List.append_assoc]
  exact List.prefix_append _ _

theorem hashOk_hashBody (body : Bytes) : HashOk (hashBody body) := by
  refine ⟨by simp [hashBody], fun b hb => ?_⟩
  exact isHexChar_of_mem_hexEncode (List.mem_of_mem_take hb)

@[simp] theorem newBlock_key (key body : Bytes) : (newBlock key body).key = key := rfl

theorem hashOk_newBlock (key body : Bytes) : HashOk (newBlock key body).hash := hashOk_hashBody _

/-- A fresh block is not edited. -/
@[simp] theorem newBlock_edited (key body : Bytes) : (newBlock key body).edited = false := by
  simp [newBlock, Block.edited]

end WiseLabz.Doc
