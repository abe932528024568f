/-
**Which actions of a recipe have changed.**

An edit of a recipe is audited by the names of the actions that were added, changed or removed, and
an approval is bound to a fingerprint of the definition of its action.  Both work on a canonical
form, in which the defaults are filled in.  The audit compares it field by field, and the
fingerprint is a hash of its JSON text, which shows no difference between texts that differ only
where they are not valid UTF-8.

Main definitions:

* `Recipe.ActionRecipe`, `Recipe.Accepted` — the actions of a recipe that was accepted;
* `Recipe.canonicalActions`, `Recipe.diffActions` — **the audit**;
* `Recipe.marshalAction`, `Recipe.actionFingerprint` — **the fingerprint**;
* `Recipe.resolvedFingerprint` — the fingerprint that comes with a resolved action.

Main results:

* `Recipe.qualifiedNames_nodup` — no two actions share a qualified name;
* `Recipe.sameAction_iff` — the audit and the JSON text tell the same;
* `Recipe.diffActions_partition` — what the audit lists;
* `Recipe.changed_iff_fingerprint` — **an action is changed exactly when its fingerprint is**.
-/

import WiseLabz.Lib.Joined
import WiseLabz.Lib.Json
import WiseLabz.Lib.Sha256
import WiseLabz.Recipe.Actions
import Mathlib.Data.List.Perm.Subperm

set_option relaxedAutoImplicit false
set_option autoImplicit false

namespace WiseLabz.Recipe

open Lib

variable {A : Type}

/-! ### Canonical actions -/

/-- The actions of a recipe: those of the service, and those of the entities. -/
structure ActionRecipe (A : Type) where
  actions : List (Bytes × RecipeAction)
  endpoints : List (EntityActions A)

/-- What follows the last dot. -/
def lastPart (name : Bytes) : Bytes := (name.reverse.takeWhile (· ≠ 46)).reverse

/-- The declared estimate, or the default. -/
def actionDowntime (name : Bytes) (action : RecipeAction) : ℤ :=
  match action.downtimeSeconds with
  | some d => d
  | none => if lastPart name = bytes "restart" then 30 else 0

/-- An action with its defaults.  An empty map becomes nil, so the two need no telling apart. -/
def canonicalAction (name : Bytes) (action : RecipeAction) : RecipeAction :=
  { action with
    label := if action.label = [] then name else action.label
    hasBody := action.hasBody || !action.body.isNull
    downtimeSeconds := some (actionDowntime name action) }

/-- The declared actions: the kind of the entity, or none for the service, and the name. -/
def ActionRecipe.declared (r : ActionRecipe A) : List (Option Bytes × Bytes × RecipeAction) :=
  (r.actions.map fun e => (none, e.1, e.2)) ++
    r.endpoints.flatMap fun endpoint =>
      endpoint.actions.map fun e => (some endpoint.entity.kind, e.1, e.2)

def qualifiedName : Option Bytes → Bytes → Bytes
  | none, name => bytes "service." ++ name
  | some kind, name => bytes "entity." ++ (kind ++ 46 :: name)

/-- **The declared actions by their qualified names.** -/
def canonicalActions (r : ActionRecipe A) : List (Bytes × RecipeAction) :=
  putAll Prod.fst [] (r.declared.map fun d =>
    (qualifiedName d.1 d.2.1, canonicalAction d.2.1 d.2.2))

/-! ### JSON -/

mutual

/-- `json.Marshal` of a body; a time or a value of another type is no body. -/
def marshalBody (number : UInt64 → NumberText) : BodyValue → Json
  | .bool b => .bool b
  | .int i => .number (.ofInt i)
  | .float bits => .number (number bits)
  | .string s => .string (jsonEncode s)
  | .array items => .array (marshalItems number items)
  | .object _ members =>
      .object ((sortedEntries (marshalMembers number members)).map fun e => (jsonEncode e.1, e.2))
  | _ => .null

def marshalItems (number : UInt64 → NumberText) : List BodyValue → List Json
  | [] => []
  | item :: rest => marshalBody number item :: marshalItems number rest

def marshalMembers (number : UInt64 → NumberText) :
    List (Option Bytes × BodyValue) → List (Bytes × Json)
  | [] => []
  | (key, item) :: rest => (key.getD [], marshalBody number item) :: marshalMembers number rest

end

/-- `json.Marshal` of a map of texts. -/
def marshalMap (m : List (Bytes × Bytes)) : Json :=
  if m = [] then .null
  else .object ((sortedEntries m).map fun e => (jsonEncode e.1, .string (jsonEncode e.2)))

/-- `json.Marshal` of an action. -/
def marshalAction (number : UInt64 → NumberText) (a : RecipeAction) : Json :=
  .object [(jsonEncode (bytes "Method"), .string (jsonEncode a.method)),
    (jsonEncode (bytes "Path"), .string (jsonEncode a.path)),
    (jsonEncode (bytes "Query"), marshalMap a.query),
    (jsonEncode (bytes "Headers"), marshalMap a.headers),
    (jsonEncode (bytes "Body"), marshalBody number a.body),
    (jsonEncode (bytes "Label"), .string (jsonEncode a.label)),
    (jsonEncode (bytes "Description"), .string (jsonEncode a.description)),
    (jsonEncode (bytes "DowntimeSeconds"),
      match a.downtimeSeconds with
      | none => .null
      | some d => .number (.ofInt d)),
    (jsonEncode (bytes "HasBody"), .bool a.hasBody)]

/-! ### The audit -/

def mapsEqual (left right : List (Bytes × Bytes)) : Bool :=
  left.length = right.length ∧ left.all fun e => lookup Prod.fst right e.1 = some e

def sameAction (number : UInt64 → NumberText) (name : Bytes) (left right : RecipeAction) : Bool :=
  let left := canonicalAction name left
  let right := canonicalAction name right
  if marshalError left.body ≠ none ∨ marshalError right.body ≠ none then false
  else
    left.method = right.method ∧ left.path = right.path ∧
      mapsEqual left.query right.query ∧ mapsEqual left.headers right.headers ∧
      (marshalBody number left.body).text = (marshalBody number right.body).text ∧
      left.hasBody = right.hasBody ∧
      left.label = right.label ∧ left.description = right.description ∧
      actionDowntime name left = actionDowntime name right

structure ActionDiff where
  added : List Bytes
  changed : List Bytes
  removed : List Bytes
  deriving DecidableEq, Repr

def sortStrings (names : List Bytes) : List Bytes := names.mergeSort fun a b => decide (a ≤ b)

/-- **The names of the actions that were added, changed or removed.** -/
def diffActions (number : UInt64 → NumberText) (before after : List (Bytes × RecipeAction)) :
    ActionDiff where
  added := sortStrings
    ((after.filter fun e => (lookup Prod.fst before e.1).isNone).map Prod.fst)
  changed := sortStrings ((after.filter fun e =>
    (lookup Prod.fst before e.1).any fun previous =>
      !sameAction number e.1 previous.2 e.2).map Prod.fst)
  removed := sortStrings
    ((before.filter fun e => (lookup Prod.fst after e.1).isNone).map Prod.fst)

/-! ### The fingerprint -/

/-- The text that the fingerprint of an action is the hash of. -/
def fingerprintText (number : UInt64 → NumberText) (scope name : Bytes) (action : RecipeAction) :
    Bytes :=
  scope ++ 0 :: (marshalAction number (canonicalAction name action)).text

/-- **The fingerprint** of an action, unless it has no JSON form. -/
def actionFingerprint (number : UInt64 → NumberText) (scope name : Bytes) (action : RecipeAction) :
    Option Bytes :=
  if marshalError (canonicalAction name action).body ≠ none then none
  else some (hexEncode (Sha256.sum (fingerprintText number scope name action)))

/-- The definition that an action of the service, or of an entity of a kind, is resolved to. -/
def resolveDefinition (r : ActionRecipe A) : Option Bytes → Bytes → Option RecipeAction
  | none, name => (lookup Prod.fst r.actions name).map Prod.snd
  | some kind, name =>
      r.endpoints.findSome? fun endpoint =>
        if endpoint.entity.kind = kind then (lookup Prod.fst endpoint.actions name).map Prod.snd
        else none

/-- **The fingerprint that comes with a resolved action.**  It does not depend on the entity but for
its kind, nor on the request. -/
def resolvedFingerprint (number : UInt64 → NumberText) (r : ActionRecipe A) (kind : Option Bytes)
    (name : Bytes) : Option Bytes :=
  (resolveDefinition r kind name).bind (actionFingerprint number (qualifiedName kind name) name)

/-! ### Accepted recipes -/

/-- **The actions of a recipe that was accepted**: the maps have each key once, and the checks found
no problem. -/
structure Accepted (urlParse : Bytes → Option Url) (r : ActionRecipe A) : Prop where
  actions : KeyNodup Prod.fst r.actions
  entityActions : ∀ endpoint ∈ r.endpoints, KeyNodup Prod.fst endpoint.actions
  query : ∀ d ∈ r.declared, KeyNodup Prod.fst d.2.2.query
  headers : ∀ d ∈ r.declared, KeyNodup Prod.fst d.2.2.headers
  valid : validateRecipeActions urlParse r.actions r.endpoints = []

/-- The texts of an action are valid UTF-8: JSON gives them back as they are. -/
structure ValidTexts (a : RecipeAction) : Prop where
  path : jsonText a.path = a.path
  query : ∀ e ∈ a.query, jsonText e.1 = e.1 ∧ jsonText e.2 = e.2
  headers : ∀ e ∈ a.headers, jsonText e.1 = e.1 ∧ jsonText e.2 = e.2
  label : jsonText a.label = a.label
  description : jsonText a.description = a.description


/-! ### Names -/

/-- The bytes of the name of an action. -/
theorem of_mem_validName {name : Bytes} (h : validActionName name = true) {b : UInt8}
    (hb : b ∈ name) : (isLower b || isDigit b || b = 95 || b = 45) = true := by
  cases name with
  | nil => exact absurd hb List.not_mem_nil
  | cons c rest =>
      simp only [validActionName, Bool.and_eq_true] at h
      rcases List.mem_cons.1 hb with rfl | hb
      · simp [h.1.2]
      · exact List.all_eq_true.1 h.2 b hb

theorem dot_notMem_of_valid {name : Bytes} (h : validActionName name = true) : 46 ∉ name := by
  intro hdot
  exact absurd (of_mem_validName h hdot) (by decide)

theorem validName_ne_nil {name : Bytes} (h : validActionName name = true) : name ≠ [] := by
  rintro rfl
  exact Bool.false_ne_true h

theorem runeWidth_ascii {b : UInt8} (h : b < 0x80) (s : Bytes) : runeWidth (b :: s) = 1 := by
  unfold runeWidth
  exact if_pos h

/-- A text of ASCII characters comes back as it is. -/
theorem jsonText_ascii {s : Bytes} (h : ∀ b ∈ s, b < 0x80) : jsonText s = s := by
  rw [jsonText_eq_self_iff, jsonEncode]
  induction s with
  | nil => exact List.not_mem_nil
  | cons b s ih =>
      rw [jsonEncodeFrom, runeWidth_ascii (h b List.mem_cons_self)]
      intro hnone
      rcases List.mem_cons.1 hnone with hnone | hnone
      · cases hnone
      · exact ih (fun c hc => h c (List.mem_cons_of_mem _ hc)) hnone

theorem jsonText_of_validName {name : Bytes} (h : validActionName name = true) :
    jsonText name = name := by
  refine jsonText_ascii fun b hb => ?_
  have hbyte := of_mem_validName h hb
  simp only [isLower, isDigit, Bool.or_eq_true, Bool.and_eq_true, decide_eq_true_eq] at hbyte
  rcases hbyte with ((⟨-, hb⟩ | ⟨-, hb⟩) | rfl) | rfl
  · exact Std.lt_of_le_of_lt hb (by decide)
  · exact Std.lt_of_le_of_lt hb (by decide)
  · decide
  · decide

theorem qualifiedName_inj {kind kind' : Option Bytes} {name name' : Bytes} (h : 46 ∉ name)
    (h' : 46 ∉ name') (heq : qualifiedName kind name = qualifiedName kind' name') :
    kind = kind' ∧ name = name' := by
  match kind, kind' with
  | none, none => exact ⟨rfl, List.append_cancel_left heq⟩
  | none, some _ => exact absurd (congrArg List.head? heq) (by simp [qualifiedName, bytes])
  | some _, none => exact absurd (congrArg List.head? heq) (by simp [qualifiedName, bytes])
  | some kind, some kind' =>
      -- the last dot separates the kind from the name
      have hrest := congrArg List.reverse (List.append_cancel_left heq)
      simp only [List.reverse_append, List.reverse_cons, List.append_assoc, List.singleton_append]
        at hrest
      obtain ⟨hname, hkind⟩ := append_cons_inj (by simpa using h) (by simpa using h') hrest
      exact ⟨congrArg some (List.reverse_injective hkind), List.reverse_injective hname⟩

section Accepted

variable {urlParse : Bytes → Option Url} {r : ActionRecipe A}

theorem validName_of_set {actions : List (Bytes × RecipeAction)} {entity : Option (RecipeEntity A)}
    {base : Bytes} (h : validateActionSet urlParse actions entity base = [])
    {e : Bytes × RecipeAction} (he : e ∈ actions) : actionIssues urlParse entity base e.1 e.2 = [] := by
  have hmem : e ∈ sortedEntries actions := List.mem_mergeSort.2 he
  unfold validateActionSet at h
  rw [List.append_eq_nil_iff, List.flatMap_eq_nil_iff] at h
  exact h.2 e hmem

/-- The endpoints with actions are of different kinds, and their actions are checked. -/
theorem entityActions_checked {endpoints : List (EntityActions A)} {i : ℕ}
    {declaredKinds : List Bytes} (h : validateEntityActions urlParse endpoints i declaredKinds = []) :
    (endpoints.Pairwise fun e e' =>
      e.actions ≠ [] → e'.actions ≠ [] → e.entity.kind ≠ e'.entity.kind) ∧
    (∀ e ∈ endpoints, e.actions ≠ [] → e.entity.kind ∉ declaredKinds) ∧
    ∀ e ∈ endpoints, ∀ a ∈ e.actions, ∃ base,
      actionIssues urlParse (some e.entity) base a.1 a.2 = [] := by
  induction endpoints generalizing i declaredKinds with
  | nil => exact ⟨List.Pairwise.nil, fun e he => absurd he List.not_mem_nil,
      fun e he => absurd he List.not_mem_nil⟩
  | cons first rest ih =>
      rw [validateEntityActions] at h
      split at h
      · next hempty =>
          obtain ⟨hpairwise, hkinds, hchecked⟩ := ih h
          refine ⟨List.pairwise_cons.2 ⟨fun e _ hne => (hne hempty).elim, hpairwise⟩, ?_, ?_⟩
          · intro e he hne
            rcases List.mem_cons.1 he with rfl | he
            · exact (hne hempty).elim
            · exact hkinds e he hne
          · intro e he a ha
            rcases List.mem_cons.1 he with rfl | he
            · rw [hempty] at ha
              exact absurd ha List.not_mem_nil
            · exact hchecked e he a ha
      · next hne =>
          simp only [List.append_eq_nil_iff, issueIf_eq_nil, decide_eq_false_iff_not] at h
          obtain ⟨⟨hnew, hset⟩, hrest⟩ := h
          obtain ⟨hpairwise, hkinds, hchecked⟩ := ih hrest
          refine ⟨List.pairwise_cons.2 ⟨?_, hpairwise⟩, ?_, ?_⟩
          · intro e he _ hactions hkind
            exact hkinds e he hactions (hkind ▸ List.mem_cons_self)
          · intro e he hactions
            rcases List.mem_cons.1 he with rfl | he
            · exact hnew
            · exact fun hmem => hkinds e he hactions (List.mem_cons_of_mem _ hmem)
          · intro e he a ha
            rcases List.mem_cons.1 he with rfl | he
            · exact ⟨_, validName_of_set hset ha⟩
            · exact hchecked e he a ha

/-- Each declared action was checked. -/
theorem Accepted.checked (h : Accepted urlParse r) {d : Option Bytes × Bytes × RecipeAction}
    (hd : d ∈ r.declared) :
    ∃ (entity : Option (RecipeEntity A)) (base : Bytes),
      actionIssues urlParse entity base d.2.1 d.2.2 = [] := by
  have hvalid := h.valid
  rw [validateRecipeActions, List.append_eq_nil_iff] at hvalid
  rcases List.mem_append.1 hd with hd | hd
  · obtain ⟨e, he, rfl⟩ := List.mem_map.1 hd
    exact ⟨none, _, validName_of_set hvalid.1 he⟩
  · obtain ⟨endpoint, hendpoint, hd⟩ := List.mem_flatMap.1 hd
    obtain ⟨e, he, rfl⟩ := List.mem_map.1 hd
    obtain ⟨base, hbase⟩ := (entityActions_checked hvalid.2).2.2 endpoint hendpoint e he
    exact ⟨_, base, hbase⟩

theorem Accepted.validName (h : Accepted urlParse r) {d : Option Bytes × Bytes × RecipeAction}
    (hd : d ∈ r.declared) : validActionName d.2.1 = true := by
  obtain ⟨entity, base, hissues⟩ := h.checked hd
  simp only [actionIssues, List.append_eq_nil_iff, issueIf_eq_nil] at hissues
  simpa using hissues.1.1.1.1.1.1.1.1.1.1

/-- The kind and the name tell a declared action. -/
theorem Accepted.declared_nodup (h : Accepted urlParse r) :
    KeyNodup (fun d : Option Bytes × Bytes × RecipeAction => (d.1, d.2.1)) r.declared := by
  have hvalid := h.valid
  rw [validateRecipeActions, List.append_eq_nil_iff] at hvalid
  have hkinds := (entityActions_checked hvalid.2).1
  rw [KeyNodup, ActionRecipe.declared, List.map_append, List.nodup_append, List.map_map,
    List.map_flatMap, List.nodup_flatMap]
  refine ⟨?_, ⟨?_, ?_⟩, ?_⟩
  · show (r.actions.map ((fun name => (none, name)) ∘ Prod.fst)).Nodup
    rw [← List.map_map]
    exact List.Nodup.map (fun _ _ heq => congrArg Prod.snd heq) h.actions
  · intro endpoint hendpoint
    rw [List.map_map]
    show (endpoint.actions.map
      ((fun name => (some endpoint.entity.kind, name)) ∘ Prod.fst)).Nodup
    rw [← List.map_map]
    exact List.Nodup.map (fun _ _ heq => congrArg Prod.snd heq) (h.entityActions endpoint hendpoint)
  · -- the kinds of two endpoints with actions differ
    refine hkinds.imp ?_
    intro e e' hne p hp hp'
    simp only [List.map_map, List.mem_map, Function.comp_apply] at hp hp'
    obtain ⟨a, ha, rfl⟩ := hp
    obtain ⟨a', ha', heq⟩ := hp'
    refine hne (List.ne_nil_of_mem ha) (List.ne_nil_of_mem ha') ?_
    exact (Option.some.inj (congrArg Prod.fst heq)).symm
  · rintro p hp p' hp' rfl
    simp only [List.map_map, List.mem_map, List.mem_flatMap, Function.comp_apply] at hp hp'
    obtain ⟨a, -, rfl⟩ := hp
    obtain ⟨e, -, a', -, heq⟩ := hp'
    cases congrArg Prod.fst heq

/-- **No two declared actions share a qualified name**, not even when kinds contain dots. -/
theorem qualifiedNames_nodup (h : Accepted urlParse r) :
    (r.declared.map fun d => qualifiedName d.1 d.2.1).Nodup := by
  refine List.Nodup.map_on ?_ (List.Nodup.of_map _ h.declared_nodup)
  intro d hd d' hd' heq
  obtain ⟨hkind, hname⟩ := qualifiedName_inj (dot_notMem_of_valid (h.validName hd))
    (dot_notMem_of_valid (h.validName hd')) heq
  exact h.declared_nodup.eq_of_key hd hd' (Prod.ext hkind hname)

theorem canonicalActions_eq (h : Accepted urlParse r) :
    canonicalActions r =
      r.declared.map fun d => (qualifiedName d.1 d.2.1, canonicalAction d.2.1 d.2.2) := by
  refine putAll_nil ?_
  rw [KeyNodup, List.map_map]
  exact qualifiedNames_nodup h

theorem keyNodup_canonicalActions (h : Accepted urlParse r) :
    KeyNodup Prod.fst (canonicalActions r) := by
  rw [KeyNodup, canonicalActions_eq h, List.map_map]
  exact qualifiedNames_nodup h

/-- What a declared action is under its qualified name. -/
theorem mem_canonicalActions (h : Accepted urlParse r) {kind : Option Bytes} {name : Bytes}
    {a : RecipeAction} (hmem : (kind, name, a) ∈ r.declared) :
    (qualifiedName kind name, canonicalAction name a) ∈ canonicalActions r := by
  rw [canonicalActions_eq h]
  exact List.mem_map_of_mem (f := fun d : Option Bytes × Bytes × RecipeAction =>
    (qualifiedName d.1 d.2.1, canonicalAction d.2.1 d.2.2)) hmem

/-- What is resolved was declared. -/
theorem mem_declared_of_resolve {kind : Option Bytes} {name : Bytes} {a : RecipeAction}
    (h : resolveDefinition r kind name = some a) : (kind, name, a) ∈ r.declared := by
  cases kind with
  | none =>
      obtain ⟨e, he, rfl⟩ := Option.map_eq_some_iff.1 h
      obtain ⟨hmem, rfl⟩ := lookup_eq_some he
      exact List.mem_append_left _ (List.mem_map.2 ⟨e, hmem, rfl⟩)
  | some kind =>
      obtain ⟨endpoint, hendpoint, hfound⟩ := List.exists_of_findSome?_eq_some h
      split at hfound
      · next hkind =>
          obtain ⟨e, he, rfl⟩ := Option.map_eq_some_iff.1 hfound
          obtain ⟨hmem, rfl⟩ := lookup_eq_some he
          refine List.mem_append_right _ (List.mem_flatMap.2 ⟨endpoint, hendpoint, ?_⟩)
          exact List.mem_map.2 ⟨e, hmem, by rw [hkind]⟩
      · cases hfound

theorem resolve_isSome {kind : Option Bytes} {name : Bytes} {a : RecipeAction}
    (h : (kind, name, a) ∈ r.declared) : (resolveDefinition r kind name).isSome = true := by
  rcases List.mem_append.1 h with h | h
  · obtain ⟨e, he, heq⟩ := List.mem_map.1 h
    cases heq
    rw [resolveDefinition, Option.isSome_map]
    exact lookup_isSome.2 ⟨e, he, rfl⟩
  · obtain ⟨endpoint, hendpoint, h⟩ := List.mem_flatMap.1 h
    obtain ⟨e, he, heq⟩ := List.mem_map.1 h
    cases heq
    rw [resolveDefinition, List.findSome?_isSome_iff]
    refine ⟨endpoint, hendpoint, ?_⟩
    rw [if_pos rfl, Option.isSome_map]
    exact lookup_isSome.2 ⟨e, he, rfl⟩

/-- A declared action is what its kind and its name are resolved to. -/
theorem resolveDefinition_eq (h : Accepted urlParse r) {kind : Option Bytes} {name : Bytes}
    {a : RecipeAction} (hmem : (kind, name, a) ∈ r.declared) :
    resolveDefinition r kind name = some a := by
  obtain ⟨a', ha'⟩ := Option.isSome_iff_exists.1 (resolve_isSome hmem)
  have heq := h.declared_nodup.eq_of_key (mem_declared_of_resolve ha') hmem rfl
  rw [ha', show a' = a from congrArg (fun d => d.2.2) heq]

/-- The body of a declared action has a JSON form. -/
theorem Accepted.marshalError_eq_none (h : Accepted urlParse r)
    {d : Option Bytes × Bytes × RecipeAction} (hd : d ∈ r.declared) :
    marshalError d.2.2.body = none := by
  obtain ⟨entity, base, hissues⟩ := h.checked hd
  simp only [actionIssues, List.append_eq_nil_iff, issueIf_eq_nil] at hissues
  have hbody := hissues.1.1.1.1.1.2
  unfold bodyIssues at hbody
  split at hbody
  · split at hbody
    · cases hbody
    · split at hbody
      · cases hbody
      · assumption
  · next hnone =>
      cases hnull : d.2.2.body with
      | null => rfl
      | _ => simp [hnull, BodyValue.isNull] at hnone

theorem Accepted.method_mem (h : Accepted urlParse r)
    {d : Option Bytes × Bytes × RecipeAction} (hd : d ∈ r.declared) :
    d.2.2.method ∈ [bytes "POST", bytes "PUT", bytes "PATCH", bytes "DELETE"] := by
  obtain ⟨entity, base, hissues⟩ := h.checked hd
  simp only [actionIssues, List.append_eq_nil_iff, issueIf_eq_nil] at hissues
  exact Decidable.not_not.1 (of_decide_eq_false hissues.1.1.1.1.1.1.1.1.1.2)

end Accepted

/-! ### The same texts and the same JSON -/

/-- The order of the entries is that of their keys, of which each is there once. -/
theorem sortedEntries_eq_iff {m m' : List (Bytes × Bytes)} (hm' : KeyNodup Prod.fst m') :
    sortedEntries m = sortedEntries m' ↔ m.Perm m' := by
  have hsorted : ∀ l : List (Bytes × Bytes),
      (sortedEntries l).Pairwise fun x y => decide (x.1 ≤ y.1) = true := by
    intro l
    refine List.pairwise_mergeSort ?_ ?_ l
    · intro x y z hxy hyz
      exact decide_eq_true (Std.le_trans (of_decide_eq_true hxy) (of_decide_eq_true hyz))
    · intro x y
      simpa using Std.le_total (a := x.1) (b := y.1)
  constructor
  · intro h
    exact (List.mergeSort_perm m _).symm.trans
      ((List.Perm.of_eq h).trans (List.mergeSort_perm m' _))
  · intro h
    refine List.Perm.eq_of_pairwise ?_ (hsorted m) (hsorted m')
      ((List.mergeSort_perm m _).trans (h.trans (List.mergeSort_perm m' _).symm))
    intro x y hx hy hxy hyx
    have hkey := Std.le_antisymm (of_decide_eq_true hxy) (of_decide_eq_true hyx)
    exact hm'.eq_of_key (h.mem_iff.1 (List.mem_mergeSort.1 hx)) (List.mem_mergeSort.1 hy) hkey

theorem mapsEqual_iff {m m' : List (Bytes × Bytes)} (hm : KeyNodup Prod.fst m)
    (hm' : KeyNodup Prod.fst m') : mapsEqual m m' = true ↔ m.Perm m' := by
  rw [mapsEqual, decide_eq_true_eq, List.all_eq_true]
  constructor
  · rintro ⟨hlength, hall⟩
    have hsub : m ⊆ m' := fun e he => (lookup_eq_some (of_decide_eq_true (hall e he))).1
    exact (List.subperm_of_subset (List.Nodup.of_map _ hm) hsub).perm_of_length_le hlength.symm.le
  · intro h
    refine ⟨h.length_eq, fun e he => decide_eq_true ?_⟩
    exact hm'.lookup_of_mem (h.mem_iff.1 he)

theorem marshalMap_eq_iff {m m' : List (Bytes × Bytes)} (hm' : KeyNodup Prod.fst m')
    (htexts : ∀ e ∈ m, jsonText e.1 = e.1 ∧ jsonText e.2 = e.2) :
    marshalMap m = marshalMap m' ↔ m.Perm m' := by
  constructor
  · intro h
    unfold marshalMap at h
    split at h
    · next hm =>
        split at h
        · next hm' => rw [hm, hm']
        · cases h
    · split at h
      · cases h
      · rw [← sortedEntries_eq_iff hm']
        refine eq_of_map_eq ?_ (Json.object.inj h)
        intro e he e' _ heq
        obtain ⟨hkey, hvalue⟩ := htexts e (List.mem_mergeSort.1 he)
        obtain ⟨hkey', hvalue'⟩ := Prod.mk.inj heq
        exact Prod.ext (jsonEncode_inj hkey hkey') (jsonEncode_inj hvalue (Json.string.inj hvalue'))
  · intro h
    rw [marshalMap, marshalMap, (sortedEntries_eq_iff hm').2 h]
    by_cases hm : m = []
    · subst hm
      obtain rfl := h.nil_eq
      rfl
    · rw [if_neg hm, if_neg]
      rintro rfl
      exact hm h.eq_nil

/-! ### The audit and the fingerprint -/

/-- Defaults are filled in once, whatever the name is the second time. -/
theorem canonicalAction_idem {name : Bytes} (hname : name ≠ []) (name' : Bytes)
    (a : RecipeAction) :
    canonicalAction name' (canonicalAction name a) = canonicalAction name a := by
  have hlabel : (canonicalAction name a).label ≠ [] := by
    rw [canonicalAction]
    split
    · exact hname
    · assumption
  have hbody : ((canonicalAction name a).hasBody || !a.body.isNull) =
      (canonicalAction name a).hasBody := by
    rw [canonicalAction, Bool.or_assoc, Bool.or_self]
  calc canonicalAction name' (canonicalAction name a)
      = { canonicalAction name a with
          label := (canonicalAction name a).label
          hasBody := (canonicalAction name a).hasBody
          downtimeSeconds := some (actionDowntime name a) } := by
        conv_lhs => rw [canonicalAction, if_neg hlabel]
        rw [show (canonicalAction name a).body = a.body from rfl, hbody]
        rfl
    _ = canonicalAction name a := rfl

/-- An action with defaults, as an accepted recipe has it. -/
structure Canonical (c : RecipeAction) : Prop where
  method : c.method ∈ [bytes "POST", bytes "PUT", bytes "PATCH", bytes "DELETE"]
  query : KeyNodup Prod.fst c.query
  headers : KeyNodup Prod.fst c.headers
  body : marshalError c.body = none
  downtime : ∃ d, c.downtimeSeconds = some d

theorem sameAction_comm {number : UInt64 → NumberText} {name : Bytes} {c c' : RecipeAction}
    (hc : Canonical c) (hc' : Canonical c') (hidem : canonicalAction name c = c)
    (hidem' : canonicalAction name c' = c') :
    sameAction number name c c' = true ↔ sameAction number name c' c = true := by
  simp only [sameAction, hidem, hidem', hc.body, hc'.body, ne_eq, not_true_eq_false, or_self,
    if_false, mapsEqual_iff hc.query hc'.query,
    mapsEqual_iff hc.headers hc'.headers, mapsEqual_iff hc'.query hc.query,
    mapsEqual_iff hc'.headers hc.headers, List.perm_comm, eq_comm]

/-- **The audit and the JSON text tell the same** of two actions with defaults, if the texts of one
are valid UTF-8. -/
theorem sameAction_iff {number : UInt64 → NumberText} {name : Bytes}
    {c c' : RecipeAction} (hc : Canonical c) (hc' : Canonical c') (htexts : ValidTexts c)
    (hidem : canonicalAction name c = c) (hidem' : canonicalAction name c' = c') :
    sameAction number name c c' = true ↔ marshalAction number c = marshalAction number c' := by
  obtain ⟨d, hd⟩ := hc.downtime
  obtain ⟨d', hd'⟩ := hc'.downtime
  have hdown : actionDowntime name c = d := by rw [actionDowntime, hd]
  have hdown' : actionDowntime name c' = d' := by rw [actionDowntime, hd']
  have hmethod : jsonText c.method = c.method := by
    have h : ∀ s ∈ [bytes "POST", bytes "PUT", bytes "PATCH", bytes "DELETE"],
        jsonText s = s := by decide
    exact h _ hc.method
  simp only [sameAction, hidem, hidem', hc.body, hc'.body, ne_eq, not_true_eq_false, or_self,
    if_false, decide_eq_true_eq, mapsEqual_iff hc.query hc'.query,
    mapsEqual_iff hc.headers hc'.headers, hdown, hdown']
  constructor
  · rintro ⟨hm, hp, hq, hh, hb, hhas, hl, hdesc, hdt⟩
    have hbody := Json.text_inj hb
    rw [marshalAction, marshalAction, hd, hd', hm, hp,
      (marshalMap_eq_iff hc'.query htexts.query).2 hq,
      (marshalMap_eq_iff hc'.headers htexts.headers).2 hh, hbody, hhas, hl, hdesc, hdt]
  · intro h
    simp only [marshalAction, hd, hd', Json.object.injEq, List.cons.injEq, Prod.mk.injEq,
      true_and, and_true, Json.string.injEq, Json.bool.injEq, Json.number.injEq] at h
    obtain ⟨hm, hp, hq, hh, hb, hl, hdesc, hdt, hhas⟩ := h
    exact ⟨jsonEncode_inj hmethod hm, jsonEncode_inj htexts.path hp,
      (marshalMap_eq_iff hc'.query htexts.query).1 hq,
      (marshalMap_eq_iff hc'.headers htexts.headers).1 hh, congrArg Json.text hb, hhas,
      jsonEncode_inj htexts.label hl, jsonEncode_inj htexts.description hdesc,
      NumberText.ofInt_inj hdt⟩

/-! ### What the audit lists -/

section Diff

variable {number : UInt64 → NumberText} {before after : List (Bytes × RecipeAction)}

theorem mem_sortStrings {names : List Bytes} {name : Bytes} :
    name ∈ sortStrings names ↔ name ∈ names :=
  List.mem_mergeSort

theorem nodup_sortStrings {names : List Bytes} (h : names.Nodup) : (sortStrings names).Nodup :=
  (List.mergeSort_perm names _).nodup_iff.2 h

/-- The names of the actions in both maps that are the same. -/
def unchangedActions (number : UInt64 → NumberText) (before after : List (Bytes × RecipeAction)) :
    List Bytes :=
  (after.filter fun e =>
    (lookup Prod.fst before e.1).any fun previous =>
      sameAction number e.1 previous.2 e.2).map Prod.fst

theorem mem_added {name : Bytes} :
    name ∈ (diffActions number before after).added ↔
      name ∈ after.map Prod.fst ∧ name ∉ before.map Prod.fst := by
  simp only [diffActions, mem_sortStrings, List.mem_map, List.mem_filter, Option.isNone_iff_eq_none,
    lookup_eq_none]
  constructor
  · rintro ⟨e, ⟨he, hnone⟩, rfl⟩
    refine ⟨⟨e, he, rfl⟩, ?_⟩
    rintro ⟨e', he', hkey⟩
    exact hnone e' he' hkey
  · rintro ⟨⟨e, he, rfl⟩, hnone⟩
    exact ⟨e, ⟨he, fun e' he' hkey => hnone ⟨e', he', hkey⟩⟩, rfl⟩

theorem removed_eq :
    (diffActions number before after).removed = (diffActions number after before).added :=
  rfl

/-- The names of the actions in both maps with an answer of `sameAction`. -/
theorem mem_compared (same : Bytes → RecipeAction → RecipeAction → Bool)
    (hbefore : KeyNodup Prod.fst before) (hafter : KeyNodup Prod.fst after)
    {name : Bytes} {a a' : RecipeAction} (ha : (name, a) ∈ before) (ha' : (name, a') ∈ after) :
    name ∈ (after.filter fun e =>
      (lookup Prod.fst before e.1).any fun previous => same e.1 previous.2 e.2).map Prod.fst ↔
      same name a a' = true := by
  have hlookup := hbefore.lookup_of_mem ha
  simp only [List.mem_map, List.mem_filter]
  constructor
  · rintro ⟨e, ⟨he, hany⟩, hname⟩
    obtain rfl := hafter.eq_of_key he ha' hname
    rw [hlookup] at hany
    exact hany
  · intro h
    refine ⟨(name, a'), ⟨ha', ?_⟩, rfl⟩
    rw [hlookup]
    exact h

theorem mem_both_of_compared (same : Bytes → RecipeAction → RecipeAction → Bool) {name : Bytes}
    (h : name ∈ (after.filter fun e =>
      (lookup Prod.fst before e.1).any fun previous => same e.1 previous.2 e.2).map Prod.fst) :
    ∃ a a', (name, a) ∈ before ∧ (name, a') ∈ after := by
  obtain ⟨e, he, rfl⟩ := List.mem_map.1 h
  obtain ⟨he, hany⟩ := List.mem_filter.1 he
  obtain ⟨previous, hprevious, -⟩ := (Option.any_eq_true ..).1 hany
  obtain ⟨hmem, hkey⟩ := lookup_eq_some hprevious
  exact ⟨previous.2, e.2, hkey ▸ hmem, he⟩

theorem mem_changed (hbefore : KeyNodup Prod.fst before) (hafter : KeyNodup Prod.fst after)
    {name : Bytes} {a a' : RecipeAction} (ha : (name, a) ∈ before) (ha' : (name, a') ∈ after) :
    name ∈ (diffActions number before after).changed ↔ sameAction number name a a' = false := by
  rw [diffActions, mem_sortStrings,
    mem_compared (fun name a a' => !sameAction number name a a') hbefore hafter ha ha',
    Bool.not_eq_true']

theorem mem_unchangedActions (hbefore : KeyNodup Prod.fst before)
    (hafter : KeyNodup Prod.fst after) {name : Bytes} {a a' : RecipeAction}
    (ha : (name, a) ∈ before) (ha' : (name, a') ∈ after) :
    name ∈ unchangedActions number before after ↔ sameAction number name a a' = true :=
  mem_compared (sameAction number) hbefore hafter ha ha'

theorem mem_both_of_changed {name : Bytes}
    (h : name ∈ (diffActions number before after).changed) :
    ∃ a a', (name, a) ∈ before ∧ (name, a') ∈ after :=
  mem_both_of_compared (fun name a a' => !sameAction number name a a') (mem_sortStrings.1 h)

/-- **Each name is listed once**, or is that of an action that is the same. -/
theorem diffActions_partition (hbefore : KeyNodup Prod.fst before)
    (hafter : KeyNodup Prod.fst after) :
    ((diffActions number before after).added ++ (diffActions number before after).changed ++
      (diffActions number before after).removed ++ unchangedActions number before after).Nodup ∧
    ∀ name, name ∈ (diffActions number before after).added ++
        (diffActions number before after).changed ++ (diffActions number before after).removed ++
        unchangedActions number before after ↔
      name ∈ before.map Prod.fst ∨ name ∈ after.map Prod.fst := by
  have hnodup : ∀ {m : List (Bytes × RecipeAction)} (p : Bytes × RecipeAction → Bool),
      KeyNodup Prod.fst m → ((m.filter p).map Prod.fst).Nodup := fun p h => h.filter p
  have hchanged : ∀ {name}, name ∈ (diffActions number before after).changed →
      name ∈ before.map Prod.fst ∧ name ∈ after.map Prod.fst := by
    intro name h
    obtain ⟨a, a', ha, ha'⟩ := mem_both_of_changed h
    exact ⟨List.mem_map.2 ⟨_, ha, rfl⟩, List.mem_map.2 ⟨_, ha', rfl⟩⟩
  have hunchanged : ∀ {name}, name ∈ unchangedActions number before after →
      name ∈ before.map Prod.fst ∧ name ∈ after.map Prod.fst := by
    intro name h
    obtain ⟨a, a', ha, ha'⟩ := mem_both_of_compared (sameAction number) h
    exact ⟨List.mem_map.2 ⟨_, ha, rfl⟩, List.mem_map.2 ⟨_, ha', rfl⟩⟩
  constructor
  · rw [List.nodup_append', List.nodup_append', List.nodup_append', removed_eq]
    refine ⟨⟨⟨nodup_sortStrings (hnodup _ hafter), nodup_sortStrings (hnodup _ hafter), ?_⟩,
      nodup_sortStrings (hnodup _ hbefore), ?_⟩, hnodup _ hafter, ?_⟩
    · intro name hadded h
      exact (mem_added.1 hadded).2 (hchanged h).1
    · intro name h hremoved
      rcases List.mem_append.1 h with h | h
      · exact (mem_added.1 h).2 (mem_added.1 hremoved).1
      · exact (mem_added.1 hremoved).2 (hchanged h).2
    · intro name h hsame
      rcases List.mem_append.1 h with h | hremoved
      · rcases List.mem_append.1 h with hadded | h
        · exact (mem_added.1 hadded).2 (hunchanged hsame).1
        · -- the two answers of `sameAction` differ
          obtain ⟨a, a', ha, ha'⟩ := mem_both_of_changed h
          rw [mem_changed hbefore hafter ha ha'] at h
          rw [mem_unchangedActions hbefore hafter ha ha', h] at hsame
          cases hsame
      · exact (mem_added.1 hremoved).2 (hunchanged hsame).2
  · intro name
    simp only [List.mem_append, removed_eq]
    constructor
    · rintro (((h | h) | h) | h)
      · exact Or.inr (mem_added.1 h).1
      · exact Or.inl (hchanged h).1
      · exact Or.inl (mem_added.1 h).1
      · exact Or.inl (hunchanged h).1
    · intro h
      by_cases hb : name ∈ before.map Prod.fst
      · by_cases ha : name ∈ after.map Prod.fst
        · obtain ⟨⟨_, b⟩, hmem, rfl⟩ := List.mem_map.1 hb
          obtain ⟨⟨key, a⟩, hmem', hkey⟩ := List.mem_map.1 ha
          obtain rfl : key = _ := hkey
          cases hsame : sameAction number key b a with
          | false =>
              exact Or.inl (Or.inl (Or.inr ((mem_changed hbefore hafter hmem hmem').2 hsame)))
          | true => exact Or.inr ((mem_unchangedActions hbefore hafter hmem hmem').2 hsame)
        · exact Or.inl (Or.inr (mem_added.2 ⟨hb, ha⟩))
      · exact Or.inl (Or.inl (Or.inl (mem_added.2 ⟨h.resolve_left hb, hb⟩)))

end Diff

/-! ### The audit and the fingerprint agree -/

section Fingerprint

variable {urlParse : Bytes → Option Url} {number : UInt64 → NumberText}

theorem Accepted.canonical {r : ActionRecipe A} (h : Accepted urlParse r)
    {kind : Option Bytes} {name : Bytes} {a : RecipeAction} (hmem : (kind, name, a) ∈ r.declared) :
    Canonical (canonicalAction name a) where
  method := h.method_mem hmem
  query := h.query _ hmem
  headers := h.headers _ hmem
  body := h.marshalError_eq_none hmem
  downtime := ⟨_, rfl⟩

theorem ValidTexts.canonicalAction {name : Bytes} {a : RecipeAction} (h : ValidTexts a)
    (hname : jsonText name = name) : ValidTexts (canonicalAction name a) where
  path := h.path
  query := h.query
  headers := h.headers
  label := by
    rw [Recipe.canonicalAction]
    split
    · exact hname
    · exact h.label
  description := h.description

/-- The fingerprint of a declared action. -/
theorem resolvedFingerprint_eq {r : ActionRecipe A} (h : Accepted urlParse r)
    {kind : Option Bytes} {name : Bytes} {a : RecipeAction} (hmem : (kind, name, a) ∈ r.declared) :
    resolvedFingerprint number r kind name =
      some (hexEncode (Sha256.sum (fingerprintText number (qualifiedName kind name) name a))) := by
  rw [resolvedFingerprint, resolveDefinition_eq h hmem, Option.bind_some, actionFingerprint,
    if_neg (not_not_intro (h.canonical hmem).body)]

/-- The texts that the fingerprints of the actions of a recipe are the hashes of. -/
def fingerprintTexts (number : UInt64 → NumberText) (r : ActionRecipe A) : List Bytes :=
  r.declared.map fun d => fingerprintText number (qualifiedName d.1 d.2.1) d.2.1 d.2.2

/-- No two of the texts have the same hash. -/
def NoCollision (number : UInt64 → NumberText) (before after : ActionRecipe A) : Prop :=
  ∀ s ∈ fingerprintTexts number before, ∀ t ∈ fingerprintTexts number after,
    Sha256.sum s = Sha256.sum t → s = t

/-- **The audit and the fingerprints agree**, the actions of each recipe have names of their own,
and the audit lists each of them once. -/
theorem changed_iff_fingerprint {before after : ActionRecipe A} (hbefore : Accepted urlParse before)
    (hafter : Accepted urlParse after) (hhash : NoCollision number before after) :
    (∀ kind name a a', (kind, name, a) ∈ before.declared → (kind, name, a') ∈ after.declared →
      ValidTexts a ∨ ValidTexts a' →
        (qualifiedName kind name ∈
            (diffActions number (canonicalActions before) (canonicalActions after)).changed ↔
          resolvedFingerprint number before kind name ≠
            resolvedFingerprint number after kind name) ∧
        (resolvedFingerprint number before kind name).isSome ∧
        (resolvedFingerprint number after kind name).isSome) ∧
    (let diff := diffActions number (canonicalActions before) (canonicalActions after)
      let unchanged := unchangedActions number (canonicalActions before) (canonicalActions after)
      (diff.added ++ diff.changed ++ diff.removed ++ unchanged).Nodup ∧
      ∀ name, name ∈ diff.added ++ diff.changed ++ diff.removed ++ unchanged ↔
        name ∈ (canonicalActions before).map Prod.fst ∨
          name ∈ (canonicalActions after).map Prod.fst) ∧
    (before.declared.map fun d => qualifiedName d.1 d.2.1).Nodup ∧
    (after.declared.map fun d => qualifiedName d.1 d.2.1).Nodup := by
  refine ⟨?_, diffActions_partition (keyNodup_canonicalActions hbefore)
    (keyNodup_canonicalActions hafter), qualifiedNames_nodup hbefore, qualifiedNames_nodup hafter⟩
  intro kind name a a' ha ha' htexts
  have hvalid : validActionName name = true := hbefore.validName ha
  have hname := jsonText_of_validName hvalid
  have hidem := fun b => canonicalAction_idem (validName_ne_nil hvalid) (qualifiedName kind name) b
  have hsame : sameAction number (qualifiedName kind name) (canonicalAction name a)
        (canonicalAction name a') = true ↔
      marshalAction number (canonicalAction name a) =
        marshalAction number (canonicalAction name a') := by
    rcases htexts with htexts | htexts
    · exact sameAction_iff (hbefore.canonical ha) (hafter.canonical ha')
        (htexts.canonicalAction hname) (hidem a) (hidem a')
    · rw [sameAction_comm (hbefore.canonical ha) (hafter.canonical ha') (hidem a) (hidem a'),
        sameAction_iff (hafter.canonical ha') (hbefore.canonical ha)
          (htexts.canonicalAction hname) (hidem a') (hidem a), eq_comm]
  rw [mem_changed (keyNodup_canonicalActions hbefore) (keyNodup_canonicalActions hafter)
    (mem_canonicalActions hbefore ha) (mem_canonicalActions hafter ha'),
    resolvedFingerprint_eq hbefore ha, resolvedFingerprint_eq hafter ha', ← Bool.not_eq_true, hsame]
  refine ⟨not_congr ⟨fun h => by rw [fingerprintText, h, fingerprintText], fun h => ?_⟩, rfl, rfl⟩
  have hmem : ∀ {r : ActionRecipe A} {b}, (kind, name, b) ∈ r.declared →
      fingerprintText number (qualifiedName kind name) name b ∈ fingerprintTexts number r :=
    fun hd => List.mem_map.2 ⟨_, hd, rfl⟩
  have htext := hhash _ (hmem ha) _ (hmem ha') (hexEncode_inj (Option.some.inj h))
  have htext := List.append_cancel_left htext
  exact Json.text_inj (List.cons.inj htext).2

end Fingerprint

/-- A restart of the service with a description. -/
def describedAction (description : Bytes) : RecipeAction where
  method := bytes "POST"
  path := bytes "/restart"
  query := []
  headers := []
  body := .null
  label := []
  description := description
  downtimeSeconds := none
  hasBody := false

def describedRecipe (description : Bytes) : ActionRecipe Unit :=
  ⟨[(bytes "restart", describedAction description)], []⟩

theorem accepted_described {description : Bytes}
    (h : validateRecipeActions (A := Unit) (fun _ => some ⟨[], [], []⟩)
      [(bytes "restart", describedAction description)] [] = []) :
    Accepted (fun _ => some ⟨[], [], []⟩) (describedRecipe description) where
  actions := List.nodup_singleton _
  entityActions _ he := absurd he List.not_mem_nil
  query d hd := by
    obtain rfl := List.mem_singleton.1 hd
    exact keyNodup_nil
  headers d hd := by
    obtain rfl := List.mem_singleton.1 hd
    exact keyNodup_nil
  valid := h

set_option maxRecDepth 20000 in
/-- A new description. -/
theorem changed_iff_fingerprint_sample :
    resolvedFingerprint (fun _ => .ofInt 0) (describedRecipe (bytes "now")) none (bytes "restart") ≠
      resolvedFingerprint (fun _ => .ofInt 0) (describedRecipe (bytes "later")) none
        (bytes "restart") := by
  have hbefore : Accepted (fun _ => some ⟨[], [], []⟩) (describedRecipe (bytes "now")) :=
    accepted_described (by decide +kernel)
  have hafter : Accepted (fun _ => some ⟨[], [], []⟩) (describedRecipe (bytes "later")) :=
    accepted_described (by decide +kernel)
  have hhash : NoCollision (fun _ => .ofInt 0) (describedRecipe (bytes "now"))
      (describedRecipe (bytes "later")) := by
    intro s hs t ht hsum
    obtain rfl := List.mem_singleton.1 hs
    obtain rfl := List.mem_singleton.1 ht
    rw [Sha256.sum_eq_sumNat, Sha256.sum_eq_sumNat] at hsum
    exact absurd hsum (by decide +kernel)
  have hagree := changed_iff_fingerprint hbefore hafter hhash
  have hvalid : ValidTexts (describedAction (bytes "now")) :=
    ⟨by decide, fun _ he => absurd he List.not_mem_nil, fun _ he => absurd he List.not_mem_nil,
      by decide, by decide⟩
  exact (hagree.1 none (bytes "restart") _ _ List.mem_cons_self List.mem_cons_self
    (Or.inl hvalid)).1.1 (by decide +kernel)

set_option maxRecDepth 20000 in
/-- Descriptions that differ where they are not valid UTF-8. -/
theorem changed_without_fingerprint :
    ∃ (urlParse : Bytes → Option Url) (number : UInt64 → NumberText)
      (before after : ActionRecipe Unit) (a a' : RecipeAction),
      Accepted urlParse before ∧ Accepted urlParse after ∧ NoCollision number before after ∧
        (none, bytes "restart", a) ∈ before.declared ∧
        (none, bytes "restart", a') ∈ after.declared ∧
        bytes "service.restart" ∈
          (diffActions number (canonicalActions before) (canonicalActions after)).changed ∧
        resolvedFingerprint number before none (bytes "restart") =
          resolvedFingerprint number after none (bytes "restart") := by
  have hbefore : Accepted (fun _ => some ⟨[], [], []⟩) (describedRecipe [0x80]) :=
    accepted_described (by decide +kernel)
  have hafter : Accepted (fun _ => some ⟨[], [], []⟩) (describedRecipe [0x81]) :=
    accepted_described (by decide +kernel)
  have htext : fingerprintText (fun _ => .ofInt 0) (qualifiedName none (bytes "restart"))
        (bytes "restart") (describedAction [0x80]) =
      fingerprintText (fun _ => .ofInt 0) (qualifiedName none (bytes "restart"))
        (bytes "restart") (describedAction [0x81]) := by decide +kernel
  refine ⟨fun _ => some ⟨[], [], []⟩, fun _ => .ofInt 0, describedRecipe [0x80],
    describedRecipe [0x81], describedAction [0x80], describedAction [0x81], hbefore, hafter, ?_,
    List.mem_cons_self, List.mem_cons_self, by decide +kernel, ?_⟩
  · intro s hs t ht _
    obtain rfl := List.mem_singleton.1 hs
    obtain rfl := List.mem_singleton.1 ht
    exact htext
  · rw [resolvedFingerprint_eq hbefore List.mem_cons_self,
      resolvedFingerprint_eq hafter List.mem_cons_self, htext]

end WiseLabz.Recipe
