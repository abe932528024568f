/-
**Values that do not depend on a response.**

The check of a recipe converts what an attribute may take without a response: a constant, the
entries of its map and its default.  A constant is not converted if the attribute has a map, though
the map may have no entry for it, and no default may be given; then the attribute fails on every
sync.  Apart from such constants, an attribute fails only with what a response has, a template that
was accepted has no brace out of place, and the constant of a dependency is a name.

Main definitions:

* `Recipe.FromResponse` — an attribute fails with a value of the response;
* `Recipe.ConstConverts` — the constant of an attribute with a map is mapped, or it converts.

Main results:

* `Recipe.expand_accepted` — an accepted template has no brace out of place;
* `Recipe.attribute_static` — when an attribute fails only with values of the response;
* `Recipe.static_values` — **what an accepted recipe promises**.
-/

import WiseLabz.Recipe.Attributes

set_option relaxedAutoImplicit false
set_option autoImplicit false

namespace WiseLabz.Recipe

open Lib

/-! ### Templates -/

section Templates

variable {validateGJSONPath : Bytes → Option Bytes} {jsonPathValue : Bytes → Bytes → PathResult}

/-- **An accepted template has no brace out of place** when it is expanded. -/
theorem expand_accepted {template : Bytes} {paths : List Bytes}
    (h : templatePaths validateGJSONPath template = .ok paths) {data output : Bytes} {limit : ℤ}
    {err : TemplateError}
    (hexpand : expandRecipeTemplate jsonPathValue data limit output template = .error err) :
    err ≠ .unclosed ∧ err ≠ .unmatched := by
  induction template using templatePaths.induct validateGJSONPath generalizing paths output with
  | case1 =>
      rw [expandRecipeTemplate] at hexpand
      cases hexpand
  | case2 rest ih =>
      rw [templatePaths] at h
      rw [expandRecipeTemplate] at hexpand
      exact ih h hexpand
  | case3 rest hne hcut =>
      rw [templatePaths.eq_3 _ _ hne] at h
      split at h
      · cases h
      · next after hafter =>
          rw [hcut] at hafter
          cases hafter
  | case4 rest hne after hcut issue hissue =>
      rw [templatePaths.eq_3 _ _ hne] at h
      split at h
      · cases h
      · rw [hissue] at h
        cases h
  | case5 rest hne after hcut hissue ih =>
      rw [templatePaths.eq_3 _ _ hne] at h
      split at h
      · cases h
      · next after' hafter =>
          obtain rfl : after = after' := Option.some.inj (hcut.symm.trans hafter)
          rw [hissue] at h
          obtain ⟨paths', hpaths, -⟩ := bind_eq_ok.1 h
          rw [expandRecipeTemplate.eq_3 _ _ _ _ _ hne] at hexpand
          split at hexpand
          · next hnone =>
              rw [hafter] at hnone
              cases hnone
          · next after' hafter' =>
              obtain rfl : after = after' := Option.some.inj (hafter.symm.trans hafter')
              split at hexpand
              · obtain rfl := Except.error.inj hexpand
                constructor <;> (intro heq; cases heq)
              · cases hexpand
              · split at hexpand
                · obtain rfl := Except.error.inj hexpand
                  constructor <;> (intro heq; cases heq)
                · exact ih hpaths hexpand
  | case6 rest ih =>
      rw [templatePaths] at h
      rw [expandRecipeTemplate] at hexpand
      exact ih h hexpand
  | case7 rest hne =>
      rw [templatePaths.eq_5 _ _ hne] at h
      cases h
  | case8 b rest h1 h2 h3 h4 ih =>
      rw [templatePaths.eq_6 _ _ _ h1 h2 h3 h4] at h
      rw [expandRecipeTemplate.eq_6 _ _ _ _ _ _ h1 h2 h3 h4] at hexpand
      exact ih h hexpand

end Templates

/-! ### Values of a response -/

section Responses

variable (fmt : Formats)

/-- Members are written if their values are. -/
theorem sequenceMembers_ok {members : List (Bytes × Except Bytes Bytes)}
    (h : ∀ e ∈ members, ∃ text, e.2 = .ok text) : ∃ texts, sequenceMembers members = .ok texts := by
  induction members with
  | nil => exact ⟨[], rfl⟩
  | cons e members ih =>
      obtain ⟨key, value⟩ := e
      obtain ⟨text, rfl⟩ : ∃ text, value = .ok text := h (key, value) List.mem_cons_self
      obtain ⟨texts, htexts⟩ := ih fun e he => h e (List.mem_cons_of_mem _ he)
      rw [sequenceMembers, htexts]
      exact ⟨_, rfl⟩

mutual

/-- A value of a response can be written. -/
theorem marshal_toRecipe : ∀ v : JsonValue, ∃ text, marshalValue fmt v.toRecipe = .ok text
  | .null => ⟨_, by rw [JsonValue.toRecipe, marshalValue]⟩
  | .bool b => ⟨_, by rw [JsonValue.toRecipe, marshalValue]⟩
  | .string s => ⟨_, by rw [JsonValue.toRecipe, marshalValue]⟩
  | .number text hvalid => ⟨text, by rw [JsonValue.toRecipe, marshalValue, if_pos hvalid]⟩
  | .array items => by
      obtain ⟨texts, htexts⟩ := marshal_toRecipeItems items
      exact ⟨_, by rw [JsonValue.toRecipe, marshalValue, htexts]; rfl⟩
  | .object members => by
      have hall : ∀ e ∈ sortedEntries (marshalEntries fmt (JsonValue.toRecipeMembers members)),
          ∃ text, e.2 = .ok text :=
        fun e he => marshal_toRecipeMembers members e (List.mem_mergeSort.1 he)
      obtain ⟨texts, htexts⟩ := sequenceMembers_ok hall
      exact ⟨_, by rw [JsonValue.toRecipe, marshalValue, htexts]; rfl⟩

theorem marshal_toRecipeItems : ∀ items : List JsonValue,
    ∃ texts, marshalValues fmt (JsonValue.toRecipeItems items) = .ok texts
  | [] => ⟨[], by rw [JsonValue.toRecipeItems, marshalValues]⟩
  | item :: rest => by
      obtain ⟨text, htext⟩ := marshal_toRecipe item
      obtain ⟨texts, htexts⟩ := marshal_toRecipeItems rest
      exact ⟨text :: texts, by
        rw [JsonValue.toRecipeItems, marshalValues, htext, htexts]; rfl⟩

theorem marshal_toRecipeMembers : ∀ members : List (Bytes × JsonValue),
    ∀ e ∈ marshalEntries fmt (JsonValue.toRecipeMembers members), ∃ text, e.2 = .ok text
  | [], e, he => by
      rw [JsonValue.toRecipeMembers, marshalEntries] at he
      cases he
  | (key, item) :: rest, e, he => by
      rw [JsonValue.toRecipeMembers, marshalEntries] at he
      rcases List.mem_cons.1 he with rfl | he
      · exact marshal_toRecipe item
      · exact marshal_toRecipeMembers rest e he

end

/-- A value of a response is a key. -/
theorem mapKey_of_response {result : PathResult} {value : RecipeValue}
    (h : recipeGJSONValue result = .ok value) : ∃ key, recipeMapKey fmt value = .ok key := by
  cases result with
  | missing => cases h
  | null => cases h
  | string s =>
      obtain rfl := Except.ok.inj h
      exact ⟨s, rfl⟩
  | number raw =>
      obtain rfl := Except.ok.inj h
      exact ⟨raw, rfl⟩
  | bool b =>
      obtain rfl := Except.ok.inj h
      exact ⟨_, rfl⟩
  | json decoded =>
      cases decoded with
      | error err => cases h
      | ok v =>
          obtain rfl := Except.ok.inj h
          obtain ⟨text, htext⟩ := marshal_toRecipe fmt v
          unfold recipeMapKey
          split
          · exact ⟨_, rfl⟩
          · exact ⟨_, rfl⟩
          · exact ⟨_, rfl⟩
          · exact ⟨_, rfl⟩
          · exact ⟨text, by rw [htext]; rfl⟩

end Responses

/-! ### Definitions -/

/-- The flags of an attribute tell what it has. -/
structure Marked (attr : RecipeAttribute) : Prop where
  path : attr.hasPath = false → attr.path = []
  const : attr.hasConst = false → attr.const.isNull = true
  template : attr.hasTemplate = false → attr.template = []
  default : attr.hasDefault = false → attr.default.isNull = true

/-- A definition with one source is no alias, so its flags are told. -/
theorem marked_of_count {node : AttributeNode} (h : boolCount [(markAttribute node).hasPath,
    (markAttribute node).hasConst, (markAttribute node).hasTemplate] = 1) :
    Marked (markAttribute node) := by
  have halias : node.isAlias = false := by
    by_contra htrue
    rw [Bool.not_eq_false] at htrue
    simp [markAttribute, htrue, boolCount] at h
  constructor
  · intro hnone
    have hpath : node.path = none := by simpa [markAttribute, halias] using hnone
    rw [markAttribute, hpath]
    rfl
  · intro hnone
    have hconst : node.const = none := by simpa [markAttribute, halias] using hnone
    rw [markAttribute, hconst]
    rfl
  · intro hnone
    have htemplate : node.template = none := by simpa [markAttribute, halias] using hnone
    rw [markAttribute, htemplate]
    rfl
  · intro hnone
    have hdefault : node.default = none := by simpa [markAttribute, halias] using hnone
    rw [markAttribute, hdefault]
    rfl

/-- One of the flags is set. -/
theorem boolCount_eq_one {a b c : Bool} (h : boolCount [a, b, c] = 1) :
    (a = true ∧ b = false ∧ c = false) ∨ (a = false ∧ b = true ∧ c = false) ∨
      (a = false ∧ b = false ∧ c = true) := by
  revert a b c
  decide

/-! ### What was checked -/

/-- An attribute without issues. -/
structure AttributeOk (fmt : Formats) (validateGJSONPath : Bytes → Option Bytes)
    (attr : RecipeAttribute) : Prop where
  count : boolCount [attr.hasPath, attr.hasConst, attr.hasTemplate] = 1
  template : attr.hasTemplate = true →
    ∃ paths, templatePaths validateGJSONPath attr.template = .ok paths
  const : attr.hasConst = true → attr.map = none →
    ∃ v, convertRecipeAttribute fmt attr.const attr.type = .ok v
  entries : ∀ entries, attr.map = some entries → ∀ e ∈ entries,
    ∃ v, convertRecipeAttribute fmt e.2 attr.type = .ok v
  default : attr.hasDefault = true →
    ∃ v, convertRecipeAttribute fmt attr.default attr.type = .ok v

section Checks

variable {fmt : Formats} {validateGJSONPath : Bytes → Option Bytes}

theorem convertIssue_eq_nil {value : RecipeValue} {type location : Bytes}
    (h : convertIssue fmt value type location = []) :
    ∃ v, convertRecipeAttribute fmt value type = .ok v := by
  unfold convertIssue at h
  split at h
  · cases h
  · next v hv => exact ⟨v, hv⟩

/-- A type that does not exist converts nothing, so it is an issue of its own. -/
theorem attributeOk_of_issues {attr : RecipeAttribute} {location : Bytes}
    (h : attributeIssues fmt validateGJSONPath attr location = []) :
    AttributeOk fmt validateGJSONPath attr := by
  unfold attributeIssues at h
  simp only [List.append_eq_nil_iff] at h
  obtain ⟨⟨⟨⟨⟨hcount, -⟩, htemplate⟩, htype⟩, -⟩, hstatic⟩ := h
  have hgood : ¬ (attr.type ≠ [] ∧ validAttributeType attr.type = false) := by
    simpa using issueIf_eq_nil.1 htype
  rw [if_neg hgood] at hstatic
  simp only [List.append_eq_nil_iff] at hstatic
  obtain ⟨⟨hconst, hentries⟩, hdefault⟩ := hstatic
  constructor
  · simpa using issueIf_eq_nil.1 hcount
  · intro hhas
    rw [if_pos hhas] at htemplate
    split at htemplate
    · cases htemplate
    · next paths hpaths => exact ⟨paths, hpaths⟩
  · intro hhas hmap
    rw [if_pos (by simp [hhas, hmap])] at hconst
    exact convertIssue_eq_nil hconst
  · intro entries hmap e he
    rw [hmap, List.flatMap_eq_nil_iff] at hentries
    exact convertIssue_eq_nil (hentries e (List.mem_mergeSort.2 he))
  · intro hhas
    rw [if_pos hhas] at hdefault
    exact convertIssue_eq_nil hdefault

end Checks

/-! ### Attributes -/

section Attributes

variable (fmt : Formats) (jsonPathValue : Bytes → Bytes → PathResult)

/-- The map has no entry for a value, and there is no default. -/
def Unmapped (attr : RecipeAttribute) (value : RecipeValue) : Prop :=
  ∀ entries, attr.map = some entries → ∃ key, recipeMapKey fmt value = .ok key ∧
    entries.lookup key = none ∧ attr.hasDefault = false

/-- **An attribute fails with a value of the response**: the response does not give the value, or
it gives one that is neither in the map nor replaced by a default, and that does not convert. -/
def FromResponse (item : Bytes) (attr : RecipeAttribute) (limit : ℤ) (err : MapError) : Prop :=
  (attr.hasPath = true ∨ attr.hasTemplate = true) ∧
    (attributeSource jsonPathValue item attr limit = .error err ∨
      ∃ value text, attributeSource jsonPathValue item attr limit = .ok (some value) ∧
        Unmapped fmt attr value ∧
        convertRecipeAttribute fmt value attr.type = .error text ∧ err = .convert text)

/-- **The constant of an attribute with a map is mapped**, or it is replaced by a default, or it
converts. -/
def ConstConverts (attr : RecipeAttribute) : Prop :=
  attr.hasConst = true → ∀ entries, attr.map = some entries →
    ∃ key, recipeMapKey fmt attr.const = .ok key ∧
      (entries.lookup key = none → attr.hasDefault = false →
        ∃ v, convertRecipeAttribute fmt attr.const attr.type = .ok v)

variable {fmt jsonPathValue} {validateGJSONPath : Bytes → Option Bytes} {attr : RecipeAttribute}
  {item : Bytes} {limit : ℤ}

/-- The source of an attribute whose flags tell what it has. -/
theorem attributeSource_eq (hm : Marked attr) :
    attributeSource jsonPathValue item attr limit =
      if attr.hasPath then (recipePathValue jsonPathValue item attr.path).mapError .path
      else if attr.hasConst then .ok (some attr.const)
      else
        ((expandRecipeTemplate jsonPathValue item limit [] attr.template).mapError
          .template).map fun text => text.map .string := by
  have hpath : (attr.hasPath || decide (attr.path ≠ [])) = attr.hasPath := by
    cases h : attr.hasPath with
    | true => rfl
    | false => simp [hm.path h]
  have hconst : (attr.hasConst || !attr.const.isNull) = attr.hasConst := by
    cases h : attr.hasConst with
    | true => rfl
    | false => simp [hm.const h]
  rw [attributeSource, hpath, hconst]

/-- What is mapped, for an attribute with one source. -/
theorem mapRecipeAttribute_eq_error (hm : Marked attr)
    (hcount : boolCount [attr.hasPath, attr.hasConst, attr.hasTemplate] = 1) {err : MapError} :
    mapRecipeAttribute jsonPathValue fmt item attr limit = .error err ↔
      attributeSource jsonPathValue item attr limit = .error err ∨
      ∃ value, attributeSource jsonPathValue item attr limit = .ok (some value) ∧
        (mappedValue fmt attr value = .error err ∨
        ∃ v text, mappedValue fmt attr value = .ok v ∧
          convertRecipeAttribute fmt v attr.type = .error text ∧ err = .convert text) := by
  have hpath : (attr.hasPath || decide (attr.path ≠ [])) = attr.hasPath := by
    cases h : attr.hasPath with
    | true => rfl
    | false => simp [hm.path h]
  have hconst : (attr.hasConst || !attr.const.isNull) = attr.hasConst := by
    cases h : attr.hasConst with
    | true => rfl
    | false => simp [hm.const h]
  have htemplate : (attr.hasTemplate || decide (attr.template ≠ [])) = attr.hasTemplate := by
    cases h : attr.hasTemplate with
    | true => rfl
    | false => simp [hm.template h]
  rw [mapRecipeAttribute, hpath, hconst, htemplate, if_neg (not_not_intro hcount), bind_eq_error]
  refine or_congr_right ?_
  constructor
  · rintro ⟨source, hsource, herr⟩
    cases source with
    | none => cases herr
    | some value =>
        refine ⟨value, hsource, ?_⟩
        rcases bind_eq_error.1 herr with herr | ⟨v, hv, herr⟩
        · exact Or.inl herr
        · refine Or.inr ?_
          rcases bind_eq_error.1 herr with herr | ⟨c, -, hc⟩
          · cases hconvert : convertRecipeAttribute fmt v attr.type with
            | error text =>
                rw [hconvert] at herr
                exact ⟨v, text, hv, hconvert, (Except.error.inj herr).symm⟩
            | ok c =>
                rw [hconvert] at herr
                cases herr
          · cases hc
  · rintro ⟨value, hsource, herr⟩
    refine ⟨some value, hsource, bind_eq_error.2 ?_⟩
    rcases herr with herr | ⟨v, text, hv, hconvert, rfl⟩
    · exact Or.inl herr
    · refine Or.inr ⟨v, hv, bind_eq_error.2 (Or.inl ?_)⟩
      rw [hconvert]
      rfl

/-- What a map makes of a value that is a key. -/
theorem mappedValue_of_key (hm : Marked attr) {entries : List (Bytes × RecipeValue)}
    (hmap : attr.map = some entries) {value : RecipeValue} {key : Bytes}
    (hkey : recipeMapKey fmt value = .ok key) :
    mappedValue fmt attr value = .ok ((entries.lookup key).getD
      (if attr.hasDefault then attr.default else value)) := by
  have hdefault : (attr.hasDefault || !attr.default.isNull) = attr.hasDefault := by
    cases h : attr.hasDefault with
    | true => rfl
    | false => simp [hm.default h]
  rw [mappedValue, hmap, hkey, hdefault]
  refine bind_eq_ok.2 ⟨key, rfl, ?_⟩
  cases entries.lookup key with
  | some mapped => rfl
  | none => cases attr.hasDefault <;> rfl

/-- The value that a response gives is a key. -/
theorem mapKey_of_source (hm : Marked attr) (hnone : attr.hasConst = false) {value : RecipeValue}
    (hsource : attributeSource jsonPathValue item attr limit = .ok (some value)) :
    ∃ key, recipeMapKey fmt value = .ok key := by
  rw [attributeSource_eq hm, hnone] at hsource
  split at hsource
  · rw [mapError_eq_ok] at hsource
    unfold recipePathValue at hsource
    split at hsource
    · cases hsource
    · split at hsource
      · cases hsource
      · cases hsource
      · cases hvalue : recipeGJSONValue (jsonPathValue item attr.path) with
        | error err =>
            rw [hvalue] at hsource
            cases hsource
        | ok v =>
            rw [hvalue] at hsource
            obtain rfl : v = value := Option.some.inj (Except.ok.inj hsource)
            exact mapKey_of_response fmt hvalue
  · cases htext : expandRecipeTemplate jsonPathValue item limit [] attr.template with
    | error err =>
        rw [htext] at hsource
        cases hsource
    | ok text =>
        rw [htext] at hsource
        obtain ⟨s, -, rfl⟩ := Option.map_eq_some_iff.1 (Except.ok.inj hsource)
        exact ⟨s, rfl⟩

/-- An error of a template is one of its expansion. -/
theorem expand_of_error (hm : Marked attr)
    (hcount : boolCount [attr.hasPath, attr.hasConst, attr.hasTemplate] = 1) {err : TemplateError}
    (h : mapRecipeAttribute jsonPathValue fmt item attr limit = .error (.template err)) :
    attr.hasTemplate = true ∧
      expandRecipeTemplate jsonPathValue item limit [] attr.template = .error err := by
  rcases (mapRecipeAttribute_eq_error hm hcount).1 h with herr | ⟨value, -, herr⟩
  · rw [attributeSource_eq hm] at herr
    rcases boolCount_eq_one hcount with ⟨hpath, -, -⟩ | ⟨hpath, hconst, -⟩ | ⟨hpath, hconst, hhas⟩
    · rw [hpath, if_pos rfl] at herr
      cases hvalue : recipePathValue jsonPathValue item attr.path with
      | error text =>
          rw [hvalue] at herr
          cases herr
      | ok v =>
          rw [hvalue] at herr
          cases herr
    · rw [hpath, hconst] at herr
      cases herr
    · rw [hpath, hconst] at herr
      cases htext : expandRecipeTemplate jsonPathValue item limit [] attr.template with
      | error err' =>
          rw [htext] at herr
          exact ⟨hhas, congrArg Except.error (MapError.template.inj (Except.error.inj herr))⟩
      | ok text =>
          rw [htext] at herr
          cases herr
  · rcases herr with herr | ⟨v, text, -, -, htext⟩
    · cases hmap : attr.map with
      | none =>
          rw [mappedValue, hmap] at herr
          cases herr
      | some entries =>
          cases hkey : recipeMapKey fmt value with
          | error text =>
              rw [mappedValue, hmap, hkey] at herr
              cases herr
          | ok key =>
              rw [mappedValue_of_key hm hmap hkey] at herr
              cases herr
    · cases htext

/-- What comes from the map or the default converts, so an error is that of a value that neither
replaces. -/
theorem unmapped_of_error (hm : Marked attr) (hok : AttributeOk fmt validateGJSONPath attr)
    {value : RecipeValue} {err : MapError}
    (hkey : ∀ entries, attr.map = some entries → ∃ key, recipeMapKey fmt value = .ok key)
    (h : mappedValue fmt attr value = .error err ∨
      ∃ v text, mappedValue fmt attr value = .ok v ∧
        convertRecipeAttribute fmt v attr.type = .error text ∧ err = .convert text) :
    Unmapped fmt attr value ∧
      ∃ text, convertRecipeAttribute fmt value attr.type = .error text ∧ err = .convert text := by
  cases hmap : attr.map with
  | none =>
      have hvalue : mappedValue fmt attr value = .ok value := by rw [mappedValue, hmap]
      rw [hvalue] at h
      rcases h with herr | ⟨v, text, hv, hconvert, rfl⟩
      · cases herr
      · obtain rfl := Except.ok.inj hv
        exact ⟨fun entries hsome => (nomatch hmap.symm.trans hsome), text, hconvert, rfl⟩
  | some entries =>
      obtain ⟨key, hk⟩ := hkey entries hmap
      rw [mappedValue_of_key hm hmap hk] at h
      rcases h with herr | ⟨v, text, hv, hconvert, rfl⟩
      · cases herr
      · have hv := Except.ok.inj hv
        -- what is converted does not come from the map or the default
        have hno : ∀ c, convertRecipeAttribute fmt v attr.type ≠ .ok c := by
          intro c hc
          rw [hconvert] at hc
          cases hc
        cases hlookup : entries.lookup key with
        | some mapped =>
            rw [hlookup] at hv
            obtain rfl : mapped = v := hv
            obtain ⟨before, after, hentries, -⟩ := List.lookup_eq_some_iff.1 hlookup
            have hmem : (key, mapped) ∈ entries := by simp [hentries]
            obtain ⟨c, hc⟩ := hok.entries entries hmap (key, mapped) hmem
            exact absurd hc (hno c)
        | none =>
            rw [hlookup] at hv
            cases hdefault : attr.hasDefault with
            | true =>
                rw [hdefault] at hv
                obtain rfl : attr.default = v := hv
                obtain ⟨c, hc⟩ := hok.default hdefault
                exact absurd hc (hno c)
            | false =>
                rw [hdefault] at hv
                obtain rfl : value = v := hv
                refine ⟨fun entries' hsome => ?_, text, hconvert, rfl⟩
                obtain rfl := Option.some.inj (hmap.symm.trans hsome)
                exact ⟨key, hk, hlookup, hdefault⟩

variable (jsonPathValue) in
/-- The constant is what an attribute without another source is taken from. -/
theorem attributeSource_const (hm : Marked attr)
    (hcount : boolCount [attr.hasPath, attr.hasConst, attr.hasTemplate] = 1)
    (hconst : attr.hasConst = true) (item : Bytes) (limit : ℤ) :
    attributeSource jsonPathValue item attr limit = .ok (some attr.const) ∧
      ¬ (attr.hasPath = true ∨ attr.hasTemplate = true) := by
  rcases boolCount_eq_one hcount with ⟨-, hnone, -⟩ | ⟨hpath, -, htemplate⟩ | ⟨-, hnone, -⟩
  · rw [hconst] at hnone
    cases hnone
  · rw [attributeSource_eq hm, hpath, hconst, htemplate]
    exact ⟨rfl, by simp⟩
  · rw [hconst] at hnone
    cases hnone

/-- **When an attribute fails only with values of the response.** -/
theorem attribute_static (hm : Marked attr) (hok : AttributeOk fmt validateGJSONPath attr) :
    (∀ item limit err, mapRecipeAttribute jsonPathValue fmt item attr limit = .error err →
      FromResponse fmt jsonPathValue item attr limit err) ↔ ConstConverts fmt attr := by
  constructor
  · intro h hconst entries hmap
    obtain ⟨hsource, hresponse⟩ := attributeSource_const jsonPathValue hm hok.count hconst [] 0
    cases hkey : recipeMapKey fmt attr.const with
    | error text =>
        have herr : mapRecipeAttribute jsonPathValue fmt [] attr 0 = .error (.mapKey text) := by
          refine (mapRecipeAttribute_eq_error hm hok.count).2
            (Or.inr ⟨attr.const, hsource, Or.inl ?_⟩)
          rw [mappedValue, hmap, hkey]
          rfl
        exact absurd (h [] 0 _ herr).1 hresponse
    | ok key =>
        refine ⟨key, rfl, fun hlookup hdefault => ?_⟩
        cases hconvert : convertRecipeAttribute fmt attr.const attr.type with
        | ok v => exact ⟨v, rfl⟩
        | error text =>
            have hvalue : mappedValue fmt attr attr.const = .ok attr.const := by
              rw [mappedValue_of_key hm hmap hkey, hlookup, hdefault]
              rfl
            have herr : mapRecipeAttribute jsonPathValue fmt [] attr 0 = .error (.convert text) :=
              (mapRecipeAttribute_eq_error hm hok.count).2 (Or.inr ⟨attr.const, hsource,
                Or.inr ⟨attr.const, text, hvalue, hconvert, rfl⟩⟩)
            exact absurd (h [] 0 _ herr).1 hresponse
  · intro hstatic item limit err herr
    cases hconst : attr.hasConst with
    | true =>
        -- a constant converts, whatever is made of it
        obtain ⟨hsource, -⟩ :=
          attributeSource_const jsonPathValue hm hok.count hconst item limit
        rcases (mapRecipeAttribute_eq_error hm hok.count).1 herr with herr | ⟨value, hvalue, herr⟩
        · rw [hsource] at herr
          cases herr
        · obtain rfl : attr.const = value :=
            Option.some.inj (Except.ok.inj (hsource.symm.trans hvalue))
          obtain ⟨hunmapped, text, hconvert, -⟩ := unmapped_of_error hm hok
            (fun entries hmap => (hstatic hconst entries hmap).imp fun _ h => h.1) herr
          obtain ⟨v, hv⟩ : ∃ v, convertRecipeAttribute fmt attr.const attr.type = .ok v := by
            cases hmap : attr.map with
            | none => exact hok.const hconst hmap
            | some entries =>
                obtain ⟨key, hkey, hconverts⟩ := hstatic hconst entries hmap
                obtain ⟨key', hkey', hlookup, hdefault⟩ := hunmapped entries hmap
                obtain rfl := Except.ok.inj (hkey.symm.trans hkey')
                exact hconverts hlookup hdefault
          rw [hv] at hconvert
          cases hconvert
    | false =>
        have hresponse : attr.hasPath = true ∨ attr.hasTemplate = true := by
          rcases boolCount_eq_one hok.count with hflags | hflags | hflags
          · exact Or.inl hflags.1
          · rw [hconst] at hflags
            cases hflags.2.1
          · exact Or.inr hflags.2.2
        refine ⟨hresponse, ?_⟩
        rcases (mapRecipeAttribute_eq_error hm hok.count).1 herr with herr | ⟨value, hvalue, herr⟩
        · exact Or.inl herr
        · obtain ⟨hunmapped, text, hconvert, herr⟩ := unmapped_of_error hm hok
            (fun _ _ => mapKey_of_source hm hconst hvalue) herr
          exact Or.inr ⟨value, text, hvalue, hunmapped, hconvert, herr⟩

end Attributes

/-! ### Recipes -/

section Recipes

variable {fmt : Formats} {validateGJSONPath : Bytes → Option Bytes}
  {jsonPathValue : Bytes → Bytes → PathResult} {recipe : RecipeSpec RecipeAttribute}

/-- The constant of an accepted dependency is a name. -/
theorem dependencyNames_const {node : DependencyNode} {location : Bytes}
    (h : dependencyIssues validateGJSONPath (markDependency node) location = [])
    (hconst : (markDependency node).hasConst = true) (body : Bytes) :
    ∃ name, (markDependency node).const = some (.string name) ∧
      dependencyNames jsonPathValue (markDependency node) body = .ok [name] := by
  unfold dependencyIssues at h
  simp only [List.append_eq_nil_iff] at h
  obtain ⟨⟨⟨-, hone⟩, -⟩, hname⟩ := h
  have hpath : (markDependency node).hasPath = false := by
    have hne : (markDependency node).hasPath ≠ (markDependency node).hasConst := by
      simpa using issueIf_eq_nil.1 hone
    rw [hconst] at hne
    simpa using hne
  have hnopath : (markDependency node).path = [] := by
    have hnone : node.path = none := by simpa [markDependency] using hpath
    rw [markDependency, hnone]
    rfl
  rw [if_pos hconst] at hname
  cases hvalue : (markDependency node).const with
  | none =>
      rw [hvalue] at hname
      cases hname
  | some value =>
      rw [hvalue] at hname
      cases value with
      | other => cases hname
      | string name =>
          have hnonempty : trimSpace name ≠ [] := by simpa using issueIf_eq_nil.1 hname
          refine ⟨name, rfl, ?_⟩
          rw [dependencyNames, hpath, hconst, hvalue, hnopath]
          simp [hnonempty]

/-- Each of the dependencies is without issues. -/
theorem dependencyIssues_of_valid {base : Bytes} {i : ℕ} {dependencies : List RecipeDependency}
    (h : validateDependencies validateGJSONPath base i dependencies = []) :
    ∀ d ∈ dependencies, ∃ location, dependencyIssues validateGJSONPath d location = [] := by
  induction dependencies generalizing i with
  | nil => exact fun d hd => absurd hd List.not_mem_nil
  | cons dependency rest ih =>
      rw [validateDependencies, List.append_eq_nil_iff] at h
      intro d hd
      rcases List.mem_cons.1 hd with rfl | hd
      · exact ⟨_, h.1⟩
      · exact ih h.2 d hd

/-- Each of the endpoints is without issues. -/
theorem endpoint_of_valid {i : ℕ} {endpoints : List (RecipeEndpoint RecipeAttribute)}
    (h : endpointMappingIssues fmt validateGJSONPath i endpoints = []) :
    ∀ endpoint ∈ endpoints,
      (∀ e ∈ endpoint.entity.attributes, AttributeOk fmt validateGJSONPath e.2) ∧
      ∀ d ∈ endpoint.dependencies,
        ∃ location, dependencyIssues validateGJSONPath d location = [] := by
  induction endpoints generalizing i with
  | nil => exact fun e he => absurd he List.not_mem_nil
  | cons endpoint rest ih =>
      rw [endpointMappingIssues] at h
      simp only [List.append_eq_nil_iff] at h
      obtain ⟨⟨hentity, hdependencies⟩, hrest⟩ := h
      intro endpoint' hmem
      rcases List.mem_cons.1 hmem with rfl | hmem
      · refine ⟨fun e he => ?_, dependencyIssues_of_valid hdependencies⟩
        rw [validateRecipeEntity] at hentity
        simp only [List.append_eq_nil_iff, List.flatMap_eq_nil_iff] at hentity
        exact attributeOk_of_issues (hentity.2 e (List.mem_mergeSort.2 he))
      · exact ih hrest endpoint' hmem

/-- The attributes of an accepted recipe. -/
theorem AcceptedMapping.attribute (h : AcceptedMapping fmt validateGJSONPath recipe)
    {endpoint : RecipeEndpoint RecipeAttribute} (hendpoint : endpoint ∈ recipe.endpoints)
    {e : Bytes × RecipeAttribute} (he : e ∈ endpoint.entity.attributes) :
    Marked e.2 ∧ AttributeOk fmt validateGJSONPath e.2 := by
  have hok := (endpoint_of_valid (List.append_eq_nil_iff.1 h.valid).1 endpoint hendpoint).1 e he
  obtain ⟨node, hnode⟩ := h.attributes endpoint hendpoint e he
  rw [hnode] at hok ⊢
  exact ⟨marked_of_count hok.count, hok⟩

/-- **What an accepted recipe promises**: an attribute fails only with values of the response in
exactly the recipes in which the constant of each attribute with a map is mapped, replaced by the
default, or converts; the constant of a dependency is a name, and a template has no brace out of
place. -/
theorem static_values (h : AcceptedMapping fmt validateGJSONPath recipe)
    (jsonPathValue : Bytes → Bytes → PathResult) :
    ((∀ endpoint ∈ recipe.endpoints, ∀ e ∈ endpoint.entity.attributes, ∀ item limit err,
        mapRecipeAttribute jsonPathValue fmt item e.2 limit = .error err →
          FromResponse fmt jsonPathValue item e.2 limit err) ↔
      ∀ endpoint ∈ recipe.endpoints, ∀ e ∈ endpoint.entity.attributes, ConstConverts fmt e.2) ∧
    (∀ endpoint ∈ recipe.endpoints, ∀ e ∈ endpoint.entity.attributes, ∀ item limit,
      mapRecipeAttribute jsonPathValue fmt item e.2 limit ≠ .error (.template .unclosed) ∧
      mapRecipeAttribute jsonPathValue fmt item e.2 limit ≠ .error (.template .unmatched)) ∧
    ∀ d ∈ recipe.dependencies ++ recipe.endpoints.flatMap (·.dependencies), d.hasConst = true →
      ∀ body, ∃ name, d.const = some (.string name) ∧
        dependencyNames jsonPathValue d body = .ok [name] := by
  refine ⟨?_, ?_, ?_⟩
  · have hiff : ∀ endpoint ∈ recipe.endpoints, ∀ e ∈ endpoint.entity.attributes,
        ((∀ item limit err, mapRecipeAttribute jsonPathValue fmt item e.2 limit = .error err →
          FromResponse fmt jsonPathValue item e.2 limit err) ↔ ConstConverts fmt e.2) := by
      intro endpoint hendpoint e he
      obtain ⟨hm, hok⟩ := h.attribute hendpoint he
      exact attribute_static hm hok
    exact forall₂_congr fun endpoint hendpoint => forall₂_congr fun e he =>
      hiff endpoint hendpoint e he
  · intro endpoint hendpoint e he item limit
    obtain ⟨hm, hok⟩ := h.attribute hendpoint he
    have hbraces : ∀ err, mapRecipeAttribute jsonPathValue fmt item e.2 limit =
        .error (.template err) → err ≠ .unclosed ∧ err ≠ .unmatched := by
      intro err herr
      obtain ⟨hhas, hexpand⟩ := expand_of_error hm hok.count herr
      obtain ⟨paths, hpaths⟩ := hok.template hhas
      exact expand_accepted hpaths hexpand
    exact ⟨fun herr => (hbraces _ herr).1 rfl, fun herr => (hbraces _ herr).2 rfl⟩
  · intro d hd hconst body
    obtain ⟨node, rfl⟩ := h.dependencies d hd
    obtain ⟨hendpoints, hrecipe⟩ := List.append_eq_nil_iff.1 h.valid
    obtain ⟨location, hissues⟩ : ∃ location,
        dependencyIssues validateGJSONPath (markDependency node) location = [] := by
      rcases List.mem_append.1 hd with hd | hd
      · exact dependencyIssues_of_valid hrecipe _ hd
      · obtain ⟨endpoint, hendpoint, hd⟩ := List.mem_flatMap.1 hd
        exact (endpoint_of_valid hendpoints endpoint hendpoint).2 _ hd
    exact dependencyNames_const hissues hconst body

end Recipes

/-! ### Samples -/

/-- Numbers in which no sample has an interest. -/
def sampleFormats : Formats where
  float _ _ := []
  json _ := .ofInt 0
  quote s := 34 :: s ++ [34]

/-- The state of a machine, a number: a constant that a map may replace. -/
def stateNode (const : Bytes) : AttributeNode where
  isAlias := false
  path := none
  const := some (.string const)
  template := none
  type := some (bytes "number")
  map := some (some [(bytes "x", .string (bytes "1"))])
  default := none

def stateEndpoint (const : Bytes) : RecipeEndpoint RecipeAttribute where
  name := bytes "machines"
  path := bytes "/machines"
  query := []
  items := bytes "items"
  pagination := none
  entity := {
    kind := bytes "vm", name := bytes "name", externalID := bytes "id"
    hostname := [], ip := [], mac := [], aliases := []
    attributes := [(bytes "state", markAttribute (stateNode const))] }
  dependencies := []

def stateRecipe (const : Bytes) : RecipeSpec RecipeAttribute :=
  ⟨⟨.none, [], []⟩, [stateEndpoint const], []⟩

theorem stateRecipe_accepted {const : Bytes}
    (h : endpointMappingIssues sampleFormats (fun _ => none) 0 [stateEndpoint const] = []) :
    AcceptedMapping sampleFormats (fun _ => none) (stateRecipe const) where
  attributes endpoint hendpoint e he := by
    obtain rfl := List.mem_singleton.1 hendpoint
    obtain rfl := List.mem_singleton.1 he
    exact ⟨_, rfl⟩
  dependencies d hd := absurd hd List.not_mem_nil
  valid := List.append_eq_nil_iff.2 ⟨h, rfl⟩

/-- A constant that the map replaces. -/
theorem static_values_sample :
    AcceptedMapping sampleFormats (fun _ => none) (stateRecipe (bytes "x")) ∧
      ∀ endpoint ∈ (stateRecipe (bytes "x")).endpoints, ∀ e ∈ endpoint.entity.attributes,
        ∀ item limit err,
          mapRecipeAttribute (fun _ _ => .missing) sampleFormats item e.2 limit = .error err →
            FromResponse sampleFormats (fun _ _ => .missing) item e.2 limit err := by
  have haccepted : AcceptedMapping sampleFormats (fun _ => none) (stateRecipe (bytes "x")) :=
    stateRecipe_accepted (by decide +kernel)
  refine ⟨haccepted, (static_values haccepted fun _ _ => .missing).1.2 ?_⟩
  intro endpoint hendpoint e he _ entries hmap
  obtain rfl := List.mem_singleton.1 hendpoint
  obtain rfl := List.mem_singleton.1 he
  obtain rfl := Option.some.inj hmap
  exact ⟨bytes "x", rfl, fun hlookup => by cases hlookup⟩

/-- **A constant that fails on every sync**: the map has no entry for it, there is no default, and
it is no number. -/
theorem static_value_fails :
    AcceptedMapping sampleFormats (fun _ => none) (stateRecipe (bytes "y")) ∧
      (∀ jsonPathValue item limit,
        mapRecipeAttribute jsonPathValue sampleFormats item (markAttribute (stateNode (bytes "y")))
          limit = .error (.convert (bytes "value is not a number"))) ∧
      ∀ jsonPathValue, ¬ ∀ endpoint ∈ (stateRecipe (bytes "y")).endpoints,
        ∀ e ∈ endpoint.entity.attributes, ∀ item limit err,
          mapRecipeAttribute jsonPathValue sampleFormats item e.2 limit = .error err →
            FromResponse sampleFormats jsonPathValue item e.2 limit err := by
  have haccepted : AcceptedMapping sampleFormats (fun _ => none) (stateRecipe (bytes "y")) :=
    stateRecipe_accepted (by decide +kernel)
  have hattribute : Marked (markAttribute (stateNode (bytes "y"))) ∧
      AttributeOk sampleFormats (fun _ => none) (markAttribute (stateNode (bytes "y"))) :=
    haccepted.attribute (List.mem_singleton.2 rfl) (List.mem_singleton.2 rfl)
  obtain ⟨hm, hok⟩ := hattribute
  have hvalue : mappedValue sampleFormats (markAttribute (stateNode (bytes "y")))
      (.string (bytes "y")) = .ok (.string (bytes "y")) := rfl
  have hnumber : decodeNumber (trimSpace (bytes "y")) = none := by decide
  have hconvert : convertRecipeAttribute sampleFormats (.string (bytes "y")) (bytes "number") =
      .error (bytes "value is not a number") := by
    rw [convertRecipeAttribute, if_neg (by decide), if_neg (by decide), if_pos rfl]
    simp only [recipeValueNumber, recipeValueString, bind, Except.bind, hnumber, Except.map]
  have hfails : ∀ jsonPathValue item limit,
      mapRecipeAttribute jsonPathValue sampleFormats item (markAttribute (stateNode (bytes "y")))
        limit = .error (.convert (bytes "value is not a number")) := by
    intro jsonPathValue item limit
    exact (mapRecipeAttribute_eq_error hm hok.count).2 (Or.inr ⟨.string (bytes "y"),
      (attributeSource_const jsonPathValue hm hok.count rfl item limit).1,
      Or.inr ⟨_, _, hvalue, hconvert, rfl⟩⟩)
  refine ⟨haccepted, hfails, fun jsonPathValue hall => ?_⟩
  have hresponse := hall _ (List.mem_singleton.2 rfl) _ (List.mem_singleton.2 rfl) [] 0 _
    (hfails jsonPathValue [] 0)
  exact (attributeSource_const jsonPathValue hm hok.count rfl [] 0).2 hresponse.1

end WiseLabz.Recipe
