/-
**The keys of the sections of a render.**

A section has the key of its title: the letters and digits of the title in lower case, with a dash
for whatever stands between them.  Where several titles have the same slug, the second and the later
ones have their number appended; the numbers are counted for each slug alone, so that a numbered
slug may be the slug of another title.

Main definitions:

* `Doc.slugOf`, `Doc.slugKeys` — the slug of a title, and **the keys of a list of titles**;
* `Doc.render`, `Doc.renderSnapshot` — the blocks of a render;
* `Doc.NoneNumbered` — no slug is the numbered form of another.

Main results:

* `Doc.keyOk_of_mem_slugKeys` — the keys are keys of the marker grammar;
* `Doc.slugKeys_nodup_iff`, `Doc.key_render_nodup_iff` — when the keys are distinct;
* `Doc.slugKeys_iff` — **when a render has each key once**;
* `Doc.slugKeys_collide` — two sections with one key.
-/

import WiseLabz.Doc.Blocks
import WiseLabz.Lib.Joined
import WiseLabz.Lib.Json
import WiseLabz.Lib.Occurrences

set_option relaxedAutoImplicit false
set_option autoImplicit false

namespace WiseLabz.Doc

open Lib

/-! ### Slugs -/

def dash : UInt8 := 45

/-- The class `[a-z0-9]`. -/
def isSlugByte (b : UInt8) : Bool := (97 ≤ b && b ≤ 122) || (48 ≤ b && b ≤ 57)

/-- `slugRe.ReplaceAllString(s, "-")`: a dash for each run of other bytes; `inRun` within a run. -/
def slugRe : Bool → Bytes → Bytes
  | _, [] => []
  | inRun, b :: s =>
      if isSlugByte b then b :: slugRe false s
      else if inRun then slugRe true s
      else dash :: slugRe true s

/-- `strings.Trim(s, "-")` -/
def trimDashes (s : Bytes) : Bytes :=
  ((s.dropWhile (· = dash)).reverse.dropWhile (· = dash)).reverse

section Keys

-- `toLower`: `strings.ToLower`
variable (toLower : Bytes → Bytes)

/-- The slug of a title. -/
def slugOf (title : Bytes) : Bytes :=
  let slug := trimDashes (slugRe false (toLower title))
  if slug = [] then bytes "section" else slug

/-- A slug with its number, from the second on. -/
def numbered (slug : Bytes) (n : ℕ) : Bytes :=
  if 1 < n then slug ++ dash :: bytes (toString (n : ℤ)) else slug

/-- The loop of `slugKeys`; `seen` counts the slugs so far. -/
def slugKeysFrom (keyPrefix : Bytes) (seen : Bytes → ℕ) : List Bytes → List Bytes
  | [] => []
  | title :: titles =>
      let slug := slugOf toLower title
      let n := seen slug + 1
      (keyPrefix ++ bytes "." ++ numbered slug n) ::
        slugKeysFrom keyPrefix (Function.update seen slug n) titles

/-- `slugKeys` -/
def slugKeys (keyPrefix : Bytes) (titles : List Bytes) : List Bytes :=
  slugKeysFrom toLower keyPrefix (fun _ => 0) titles

end Keys

/-! ### Renders -/

/-- A section of a template or a snapshot: its title, and what is written for it. -/
structure Section where
  title : Bytes
  content : Bytes
  deriving DecidableEq, Repr

/-- `strings.TrimRight(s, "\n")` -/
def trimNewlines (s : Bytes) : Bytes := (s.reverse.dropWhile (· = newline)).reverse

/-- The blocks of the sections. -/
def sectionBlocks (toLower : Bytes → Bytes) (keyPrefix : Bytes) (sections : List Section)
    (body : Section → Bytes) : List Block :=
  List.zipWith (fun key sec => newBlock key (trimNewlines (body sec)))
    (slugKeys toLower keyPrefix (sections.map Section.title)) sections

/-- `render`: the head of the doc and the sections of the template, each under its title; `content`
is what executing the section wrote. -/
def render (toLower : Bytes → Bytes) (serviceName description : Bytes) (sections : List Section) :
    List Block :=
  newBlock (bytes "head") (bytes "# " ++ serviceName ++
      if description = [] then [] else bytes "\n\n> " ++ description) ::
    sectionBlocks toLower (bytes "tpl") sections fun sec =>
      bytes "## " ++ sec.title ++ bytes "\n\n" ++ sec.content

/-- A dependency of a snapshot. -/
structure Dependency where
  kind : Bytes
  name : Bytes
  ref : Bytes
  deriving DecidableEq, Repr

def dependencyLine (dep : Dependency) : Bytes :=
  bytes "\n- **" ++ dep.kind ++ bytes "**: " ++ dep.name ++
    if dep.ref = [] then [] else bytes " (" ++ dep.ref ++ bytes ")"

/-- `renderSnapshot`: the head, the sections of the snapshot, its dependencies, and the text about
related entities, if there is one. -/
def renderSnapshot (toLower : Bytes → Bytes) (serviceName type : Bytes) (sections : List Section)
    (dependencies : List Dependency) (related : Option Bytes) : List Block :=
  newBlock (bytes "head") (bytes "# " ++ serviceName ++ bytes "\n\n**Type:** " ++ type) ::
    (sectionBlocks toLower (bytes "snap") sections Section.content ++
      ((if dependencies = [] then []
        else [newBlock (bytes "deps")
          (bytes "## Dependencies\n" ++ dependencies.flatMap dependencyLine)]) ++
      (related.toList.map fun text =>
        newBlock (bytes "related") (bytes "## Related Entities\n\n" ++ trimNewlines text))))

/-! ### The keys are keys -/

theorem isKeyChar_of_isSlugByte {b : UInt8} (h : isSlugByte b = true) : isKeyChar b = true := by
  simp only [isSlugByte, isKeyChar, Bool.or_eq_true] at h ⊢
  tauto

theorem isKeyChar_slugRe {inRun : Bool} {s : Bytes} :
    ∀ b ∈ slugRe inRun s, isKeyChar b = true := by
  induction s generalizing inRun with
  | nil => simp [slugRe]
  | cons c s ih =>
      intro b hb
      rw [slugRe] at hb
      split at hb
      · next hc =>
          rcases List.mem_cons.1 hb with rfl | hb
          · exact isKeyChar_of_isSlugByte hc
          · exact ih b hb
      · split at hb
        · exact ih b hb
        · rcases List.mem_cons.1 hb with rfl | hb
          · decide
          · exact ih b hb

theorem mem_of_mem_trimDashes {s : Bytes} {b : UInt8} (h : b ∈ trimDashes s) : b ∈ s := by
  rw [trimDashes, List.mem_reverse] at h
  have h' := List.mem_reverse.1 ((List.dropWhile_suffix _).subset h)
  exact (List.dropWhile_suffix _).subset h'

theorem isKeyChar_slugOf (toLower : Bytes → Bytes) (title : Bytes) :
    ∀ b ∈ slugOf toLower title, isKeyChar b = true := by
  intro b hb
  rw [slugOf] at hb
  split at hb
  · exact (by decide : ∀ b ∈ bytes "section", isKeyChar b = true) b hb
  · exact isKeyChar_slugRe b (mem_of_mem_trimDashes hb)

/-- The digits of a number are not dashes. -/
theorem mem_numeral {n : ℕ} {b : UInt8} (h : b ∈ bytes (toString (n : ℤ))) :
    isKeyChar b = true ∧ b ≠ dash := by
  rw [bytes, toList_toString] at h
  obtain ⟨c, hc, rfl⟩ := List.mem_map.1 h
  have hdigit := Nat.isDigit_of_mem_toDigits (by decide) (by decide) hc
  rw [Char.isDigit_iff_toNat] at hdigit
  obtain ⟨hlow, hhigh⟩ : 48 ≤ c.toNat ∧ c.toNat ≤ 57 := hdigit
  generalize c.toNat = m at hlow hhigh
  interval_cases m <;> exact ⟨rfl, by decide⟩

theorem isKeyChar_numbered {slug : Bytes} (h : ∀ b ∈ slug, isKeyChar b = true) (n : ℕ) :
    ∀ b ∈ numbered slug n, isKeyChar b = true := by
  intro b hb
  rw [numbered] at hb
  split at hb
  · rcases List.mem_append.1 hb with hb | hb
    · exact h b hb
    · rcases List.mem_cons.1 hb with rfl | hb
      · decide
      · exact (mem_numeral hb).1
  · exact h b hb

/-- **The keys are keys** of the marker grammar. -/
theorem keyOk_of_mem_slugKeys {toLower : Bytes → Bytes} {keyPrefix : Bytes}
    (hchars : ∀ b ∈ keyPrefix, isKeyChar b = true) {titles : List Bytes} :
    ∀ key ∈ slugKeys toLower keyPrefix titles, KeyOk key := by
  suffices h : ∀ seen, ∀ key ∈ slugKeysFrom toLower keyPrefix seen titles, KeyOk key from h _
  induction titles with
  | nil =>
      intro seen key hkey
      cases hkey
  | cons title titles ih =>
      intro seen key hkey
      rcases List.mem_cons.1 hkey with rfl | hkey
      · refine ⟨by simp [bytes], fun b hb => ?_⟩
        rcases List.mem_append.1 hb with hb | hb
        · rcases List.mem_append.1 hb with hb | hb
          · exact hchars b hb
          · exact (by decide : ∀ b ∈ bytes ".", isKeyChar b = true) b hb
        · exact isKeyChar_numbered (isKeyChar_slugOf toLower title) _ b hb
      · exact ih _ key hkey

/-! ### Distinct keys -/

/-- No slug is the numbered form of another: one of a slug that occurs at least that often. -/
def NoneNumbered (slugs : List Bytes) : Prop :=
  ∀ slug ∈ slugs, ∀ n, 1 < n → n ≤ slugs.count slug → numbered slug n ∉ slugs

theorem numbered_one (slug : Bytes) : numbered slug 1 = slug := rfl

theorem numbered_of_lt {n : ℕ} (h : 1 < n) (slug : Bytes) :
    numbered slug n = slug ++ dash :: bytes (toString (n : ℤ)) := if_pos h

/-- A numbered slug tells the slug and the number. -/
theorem numbered_inj {slug slug' : Bytes} {n n' : ℕ} (hn : 1 < n) (hn' : 1 < n')
    (h : numbered slug n = numbered slug' n') : slug = slug' ∧ n = n' := by
  rw [numbered_of_lt hn, numbered_of_lt hn'] at h
  have hreverse : (bytes (toString (n : ℤ))).reverse ++ dash :: slug.reverse =
      (bytes (toString (n' : ℤ))).reverse ++ dash :: slug'.reverse := by
    simpa using congrArg List.reverse h
  have hdash : ∀ m : ℕ, dash ∉ (bytes (toString (m : ℤ))).reverse :=
    fun m hmem => (mem_numeral (List.mem_reverse.1 hmem)).2 rfl
  obtain ⟨hnumber, hslug⟩ := append_cons_inj (hdash n) (hdash n') hreverse
  exact ⟨List.reverse_injective hslug,
    Int.ofNat.inj (bytes_toString_inj (List.reverse_injective hnumber))⟩

/-- The keys of the titles are those of the numbered occurrences of their slugs. -/
theorem slugKeys_eq (toLower : Bytes → Bytes) (keyPrefix : Bytes) (titles : List Bytes) :
    slugKeys toLower keyPrefix titles =
      (occurrences (titles.map (slugOf toLower))).map
        fun p => keyPrefix ++ bytes "." ++ numbered p.1 p.2 := by
  suffices h : ∀ seen, slugKeysFrom toLower keyPrefix seen titles =
      (occurrencesFrom seen (titles.map (slugOf toLower))).map
        fun p => keyPrefix ++ bytes "." ++ numbered p.1 p.2 from h _
  induction titles with
  | nil => exact fun _ => rfl
  | cons title titles ih =>
      intro seen
      rw [slugKeysFrom, ih]
      rfl

/-- **When the keys are distinct.** -/
theorem slugKeys_nodup_iff (toLower : Bytes → Bytes) (keyPrefix : Bytes) (titles : List Bytes) :
    (slugKeys toLower keyPrefix titles).Nodup ↔ NoneNumbered (titles.map (slugOf toLower)) := by
  rw [slugKeys_eq, List.nodup_map_iff_inj_on (nodup_occurrences _)]
  constructor
  · -- the slug that is met has the number one, and the numbered one a later number
    intro hinj slug hslug n hn hcount hmem
    have hfirst : (numbered slug n, 1) ∈ occurrences (titles.map (slugOf toLower)) :=
      mem_occurrences.2 ⟨Nat.one_pos, List.count_pos_iff.2 hmem⟩
    have hlater : (slug, n) ∈ occurrences (titles.map (slugOf toLower)) :=
      mem_occurrences.2 ⟨by omega, hcount⟩
    have heq := hinj _ hfirst _ hlater (by rw [numbered_one])
    exact absurd (congrArg Prod.snd heq) (by simp; omega)
  · rintro hnone ⟨slug, n⟩ hp ⟨slug', n'⟩ hq heq
    have hname : numbered slug n = numbered slug' n' := List.append_cancel_left heq
    obtain ⟨hpos, hcount⟩ := mem_occurrences.1 hp
    obtain ⟨hpos', hcount'⟩ := mem_occurrences.1 hq
    have hmem : slug ∈ titles.map (slugOf toLower) := List.count_pos_iff.1 (by omega)
    have hmem' : slug' ∈ titles.map (slugOf toLower) := List.count_pos_iff.1 (by omega)
    by_cases hn : 1 < n
    · by_cases hn' : 1 < n'
      · obtain ⟨rfl, rfl⟩ := numbered_inj hn hn' hname
        rfl
      · obtain rfl : n' = 1 := by omega
        rw [numbered_one] at hname
        exact absurd (hname ▸ hmem') (hnone slug hmem n hn hcount)
    · obtain rfl : n = 1 := by omega
      rw [numbered_one] at hname
      by_cases hn' : 1 < n'
      · exact absurd (hname ▸ hmem) (hnone slug' hmem' n' hn' hcount')
      · obtain rfl : n' = 1 := by omega
        rw [numbered_one] at hname
        rw [hname]

/-! ### The blocks of a render -/

theorem slugKeys_length (toLower : Bytes → Bytes) (keyPrefix : Bytes) (titles : List Bytes) :
    (slugKeys toLower keyPrefix titles).length = titles.length := by
  suffices h : ∀ seen, (slugKeysFrom toLower keyPrefix seen titles).length = titles.length from h _
  induction titles with
  | nil => exact fun _ => rfl
  | cons title titles ih => exact fun seen => congrArg (· + 1) (ih _)

theorem key_sectionBlocks (toLower : Bytes → Bytes) (keyPrefix : Bytes) (sections : List Section)
    (body : Section → Bytes) :
    (sectionBlocks toLower keyPrefix sections body).map Block.key =
      slugKeys toLower keyPrefix (sections.map Section.title) := by
  have hlen : (slugKeys toLower keyPrefix (sections.map Section.title)).length ≤
      sections.length := by
    rw [slugKeys_length, List.length_map]
  have hzip : ∀ (keys : List Bytes) (secs : List Section),
      List.zipWith (fun key sec => (newBlock key (trimNewlines (body sec))).key) keys secs =
        (keys.zip secs).map Prod.fst := fun keys secs => by
    rw [List.zip_eq_zipWith, List.map_zipWith]
    rfl
  rw [sectionBlocks, List.map_zipWith, hzip, List.map_fst_zip hlen]

theorem keyPrefix_of_mem_slugKeys {toLower : Bytes → Bytes} {keyPrefix key : Bytes}
    {titles : List Bytes} (h : key ∈ slugKeys toLower keyPrefix titles) :
    keyPrefix ++ bytes "." <+: key := by
  rw [slugKeys_eq] at h
  obtain ⟨p, -, rfl⟩ := List.mem_map.1 h
  exact List.prefix_append _ _

/-- A key that begins otherwise is not the key of a section. -/
theorem notMem_slugKeys {toLower : Bytes → Bytes} {keyPrefix key : Bytes} {titles : List Bytes}
    (h : ¬ keyPrefix ++ bytes "." <+: key) : key ∉ slugKeys toLower keyPrefix titles :=
  fun hmem => h (keyPrefix_of_mem_slugKeys hmem)

theorem key_render (toLower : Bytes → Bytes) (serviceName description : Bytes)
    (sections : List Section) :
    (render toLower serviceName description sections).map Block.key =
      bytes "head" :: slugKeys toLower (bytes "tpl") (sections.map Section.title) := by
  rw [render, List.map_cons, key_sectionBlocks, newBlock_key]

theorem key_renderSnapshot (toLower : Bytes → Bytes) (serviceName type : Bytes)
    (sections : List Section) (dependencies : List Dependency) (related : Option Bytes) :
    (renderSnapshot toLower serviceName type sections dependencies related).map Block.key =
      bytes "head" :: (slugKeys toLower (bytes "snap") (sections.map Section.title) ++
        ((if dependencies = [] then [] else [bytes "deps"]) ++
          if related = none then [] else [bytes "related"])) := by
  rw [renderSnapshot, List.map_cons, List.map_append, key_sectionBlocks, newBlock_key,
    List.map_append]
  by_cases hdeps : dependencies = [] <;> cases related <;> simp [hdeps]

/-- **When a render from a template has each key once.** -/
theorem key_render_nodup_iff (toLower : Bytes → Bytes) (serviceName description : Bytes)
    (sections : List Section) :
    ((render toLower serviceName description sections).map Block.key).Nodup ↔
      NoneNumbered ((sections.map Section.title).map (slugOf toLower)) := by
  rw [key_render, List.nodup_cons, slugKeys_nodup_iff]
  exact and_iff_right (notMem_slugKeys (by decide))

/-- **When a render from a snapshot has each key once.** -/
theorem key_renderSnapshot_nodup_iff (toLower : Bytes → Bytes) (serviceName type : Bytes)
    (sections : List Section) (dependencies : List Dependency) (related : Option Bytes) :
    ((renderSnapshot toLower serviceName type sections dependencies related).map
        Block.key).Nodup ↔
      NoneNumbered ((sections.map Section.title).map (slugOf toLower)) := by
  rw [key_renderSnapshot, ← slugKeys_nodup_iff toLower (bytes "snap")]
  have hother : ∀ key ∈ [bytes "head", bytes "deps", bytes "related"],
      key ∉ slugKeys toLower (bytes "snap") (sections.map Section.title) :=
    fun key hkey => notMem_slugKeys ((by decide :
      ∀ key ∈ [bytes "head", bytes "deps", bytes "related"],
        ¬ bytes "snap" ++ bytes "." <+: key) key hkey)
  have hlast : ∀ key ∈ (if dependencies = [] then [] else [bytes "deps"]) ++
      (if related = none then [] else [bytes "related"]),
      key ∈ [bytes "deps", bytes "related"] := by
    split <;> split <;> simp
  have hnodup : ((if dependencies = [] then [] else [bytes "deps"]) ++
      (if related = none then [] else [bytes "related"])).Nodup := by
    split <;> split <;> decide
  refine ⟨fun h => (List.nodup_append.1 (List.nodup_cons.1 h).2).1, fun h => ?_⟩
  refine List.nodup_cons.2 ⟨fun hmem => ?_, List.nodup_append.2 ⟨h, hnodup, ?_⟩⟩
  · rcases List.mem_append.1 hmem with hmem | hmem
    · exact hother _ List.mem_cons_self hmem
    · exact absurd (hlast _ hmem) (by decide)
  · rintro key hkey key' hkey' rfl
    exact hother key (List.mem_cons_of_mem _ (hlast key hkey')) hkey

/-- **When a render has each key once**, and each a key of the marker grammar: no title has a slug
that is the numbered form of a slug that several titles have. -/
theorem slugKeys_iff (toLower : Bytes → Bytes) (titles : List Bytes) :
    ((∀ keyPrefix ∈ [bytes "tpl", bytes "snap"], (slugKeys toLower keyPrefix titles).Nodup ∧
        ∀ key ∈ slugKeys toLower keyPrefix titles, KeyOk key) ∧
      ∀ sections, sections.map Section.title = titles →
        (∀ serviceName description,
          ((render toLower serviceName description sections).map Block.key).Nodup) ∧
        ∀ serviceName type dependencies related,
          ((renderSnapshot toLower serviceName type sections dependencies related).map
            Block.key).Nodup) ↔
      NoneNumbered (titles.map (slugOf toLower)) := by
  constructor
  · rintro ⟨hkeys, -⟩
    exact (slugKeys_nodup_iff toLower _ _).1 (hkeys (bytes "tpl") List.mem_cons_self).1
  · intro hnone
    have hchars : ∀ keyPrefix ∈ [bytes "tpl", bytes "snap"], ∀ b ∈ keyPrefix,
        isKeyChar b = true := by
      decide
    refine ⟨fun keyPrefix hmem => ⟨(slugKeys_nodup_iff toLower _ _).2 hnone,
      keyOk_of_mem_slugKeys (hchars keyPrefix hmem)⟩, ?_⟩
    rintro sections rfl
    exact ⟨fun _ _ => (key_render_nodup_iff ..).2 hnone,
      fun _ _ _ _ => (key_renderSnapshot_nodup_iff ..).2 hnone⟩

/-- Two sections of three have one key: the third title is what the second is numbered. -/
theorem slugKeys_collide :
    slugKeys id (bytes "tpl") [bytes "disks", bytes "disks", bytes "disks 2"] =
        [bytes "tpl.disks", bytes "tpl.disks-2", bytes "tpl.disks-2"] ∧
      ¬ (slugKeys id (bytes "tpl") [bytes "disks", bytes "disks", bytes "disks 2"]).Nodup := by
  decide

end WiseLabz.Doc
