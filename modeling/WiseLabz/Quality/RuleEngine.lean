/-
**Compliance rules with related clauses.**

A clause of a rule joins the entities that the rule selects with entities of another connector.  The
program looks the join value of an entity up in a set that it has built for the clause, where the
meaning of a clause is a comparison of each entity with each related one.

Main definitions:

* `RuleEngine.matchesCondition` — one condition on an attribute;
* `RuleEngine.fieldValue` — the join value of an entity;
* `RuleEngine.evaluateWithRelated` — **the evaluation of a rule**;
* `RuleEngine.Joined`, `RuleEngine.Violates` — the pairwise meaning of the clauses.

Main results:

* `RuleEngine.mem_candidates` — the set of a clause;
* `RuleEngine.violated_iff` — looking up is joining;
* `RuleEngine.related_rules` — **a rule with clauses returns what violates one of them**.
-/

import WiseLabz.Lib.Bytes
import WiseLabz.Lib.Table
import WiseLabz.Store.Uptime
import Mathlib.Data.List.Forall2
import Mathlib.Data.List.Infix
import Mathlib.Data.List.Perm.Basic

set_option relaxedAutoImplicit false
set_option autoImplicit false

namespace WiseLabz.RuleEngine

open Lib

/-! ### Values -/

inductive IntKind
  | int | int8 | int16 | int32 | int64 | uint | uint8 | uint16 | uint32 | uint64
  deriving DecidableEq

/-- The value of an attribute or a condition, over the floating-point numbers `F`. -/
inductive Value (F : Type)
  | null
  | bool (b : Bool)
  | int (kind : IntKind) (n : ℤ)
  | float32 (x : F)
  | float64 (x : F)
  | jsonNumber (text : Bytes)
  | string (s : Bytes)
  | strings (items : List Bytes)
  | list (items : List (Value F))
  | object (fields : List (Bytes × Value F))

/-- What is used of the language's packages for numbers, texts and times. -/
structure Library (F : Type) where
  /-- The floating-point number nearest to an integer. -/
  ofInt : ℤ → F
  /-- The conversion to 64 bits, which drops the fraction. -/
  toInt : F → ℤ
  eq : F → F → Bool
  lt : F → F → Bool
  /-- Finite, and without a fraction. -/
  isWhole : F → Bool
  parseFloat : Bytes → Option F
  /-- The shortest decimal text, without an exponent. -/
  formatFloat : F → Bytes
  toLower : Bytes → Bytes
  trimSpace : Bytes → Bytes
  /-- Whether a text matches a pattern, if the pattern compiles. -/
  matchString : Bytes → Bytes → Option Bool
  parseTime : Bytes → Option ℤ
  /-- The hours of a duration, divided by 24 and rounded down. -/
  floorDays : Int64 → ℤ

structure Condition (F : Type) where
  «attribute» : Bytes
  op : Bytes
  value : Value F

structure Entity (F : Type) where
  kind : Bytes
  name : Bytes
  externalID : Bytes
  ip : Bytes
  hostname : Bytes
  mac : Bytes
  attributes : List (Bytes × Value F)

/-- The value of an attribute that is present. -/
def Entity.attr {F : Type} (e : Entity F) (name : Bytes) : Option (Value F) :=
  (lookup Prod.fst e.attributes name).map Prod.snd

structure Join where
  sourceField : Bytes
  relatedField : Bytes
  deriving DecidableEq

structure RelatedClause (F : Type) where
  mode : Bytes
  connectorType : Bytes
  entityKind : Bytes
  join : Join
  conditions : List (Condition F)

structure Rule (F : Type) where
  entityKind : Bytes
  conditions : List (Condition F)
  related : List (RelatedClause F)

/-- The entities of the latest snapshots, for the connector types that have one. -/
abbrev RelatedEntities (F : Type) := Bytes → Option (List (Entity F))

def modeRequires : Bytes := bytes "requires"

def modeForbids : Bytes := bytes "forbids"

def attributeFieldPrefix : Bytes := bytes "attributes."

section Engine

variable {F : Type} (lib : Library F)

/-! ### Conditions -/

def number : Value F → Option F
  | .int _ n => some (lib.ofInt n)
  | .float32 x => some x
  | .float64 x => some x
  | .jsonNumber text => lib.parseFloat text
  | _ => none

def wholeNumber (v : Value F) : Option F := (number lib v).filter lib.isWhole

def Value.string? : Value F → Option Bytes
  | .string s => some s
  | _ => none

def stringSlice : Value F → Option (List Bytes)
  | .strings items => some items
  | .list items => items.mapM Value.string?
  | _ => none

mutual

/-- `reflect.DeepEqual`. -/
def deepEqual : Value F → Value F → Bool
  | .null, .null => true
  | .bool b, .bool b' => b == b'
  | .int kind n, .int kind' n' => kind = kind' && n == n'
  | .float32 x, .float32 y => lib.eq x y
  | .float64 x, .float64 y => lib.eq x y
  | .jsonNumber text, .jsonNumber text' => text = text'
  | .string s, .string t => s = t
  | .strings items, .strings items' => items = items'
  | .list items, .list items' => deepEqualItems items items'
  | .object fields, .object fields' =>
      fields.length = fields'.length && deepEqualFields fields fields'
  | _, _ => false

def deepEqualItems : List (Value F) → List (Value F) → Bool
  | [], [] => true
  | v :: vs, w :: ws => deepEqual v w && deepEqualItems vs ws
  | _, _ => false

/-- The fields of an object are found in another one. -/
def deepEqualFields : List (Bytes × Value F) → List (Bytes × Value F) → Bool
  | [], _ => true
  | (k, v) :: fields, fields' =>
      (match lookup Prod.fst fields' k with
        | some f => deepEqual v f.2
        | none => false) && deepEqualFields fields fields'

end

def equal (left right : Value F) : Bool :=
  match number lib left, number lib right with
  | some x, some y => lib.eq x y
  | some _, none => false
  | none, some _ => false
  | none, none =>
      match stringSlice left, stringSlice right with
      | some l, some r => l = r
      | some _, none => false
      | none, some _ => false
      | none, none => deepEqual lib left right

def contains (value want : Value F) : Bool :=
  match want with
  | .string needle =>
      match value with
      | .string s => decide (needle <:+: s)
      | .strings items => decide (needle ∈ items)
      | .list items => items.any fun item => item.string? = some needle
      | _ => false
  | _ => false

def daysLeft (expiry now : ℤ) : ℤ := lib.floorDays (Uptime.sub expiry now)

/-- `matches`: the condition holds of the value of its attribute, if there is one. -/
def matchesValue (value : Option (Value F)) (condition : Condition F) (now : ℤ) : Bool :=
  if condition.op = bytes "exists" then
    match condition.value with
    | .bool want => value.isSome == want
    | _ => false
  else if condition.op = bytes "not_contains" then
    match condition.value, value with
    | .string _, none => true
    | .string _, some .null => true
    | .string needle, some v => !contains v (.string needle)
    | _, _ => false
  else
    match value with
    | none => condition.op = bytes "neq"
    | some .null => false
    | some v =>
        if condition.op = bytes "eq" then equal lib v condition.value
        else if condition.op = bytes "neq" then !equal lib v condition.value
        else if condition.op = bytes "contains" then contains v condition.value
        else if condition.op = bytes "regex" then
          match condition.value, v with
          | .string pattern, .string s => (lib.matchString pattern s).getD false
          | _, _ => false
        else if condition.op = bytes "days_left_lt" ∨ condition.op = bytes "days_left_gt" then
          match v.string?.bind lib.parseTime, wholeNumber lib condition.value with
          | some expiry, some threshold =>
              let days := lib.ofInt (daysLeft lib expiry now)
              (condition.op = bytes "days_left_lt" && lib.lt days threshold) ||
                (condition.op = bytes "days_left_gt" && lib.lt threshold days)
          | _, _ => false
        else if condition.op = bytes "gt" ∨ condition.op = bytes "lt" then
          match number lib v, number lib condition.value with
          | some left, some right =>
              (condition.op = bytes "gt" && lib.lt right left) ||
                (condition.op = bytes "lt" && lib.lt left right)
          | _, _ => false
        else false

def matchesCondition (now : ℤ) (entity : Entity F) (condition : Condition F) : Bool :=
  matchesValue lib (entity.attr condition.attribute) condition now

def matchesAll (now : ℤ) (entity : Entity F) (conditions : List (Condition F)) : Bool :=
  conditions.all (matchesCondition lib now entity)

def evaluate (now : ℤ) (rule : Rule F) (snapshot : List (Entity F)) : List (Entity F) :=
  snapshot.filter fun e => e.kind = rule.entityKind && matchesAll lib now e rule.conditions

/-! ### Clauses -/

/-- The value of a join field. -/
def Entity.field (e : Entity F) (field : Bytes) : Option (Value F) :=
  if field = bytes "external_id" then some (.string e.externalID)
  else if field = bytes "name" then some (.string e.name)
  else if field = bytes "ip" then some (.string e.ip)
  else if field = bytes "hostname" then some (.string e.hostname)
  else if field = bytes "mac" then some (.string e.mac)
  else (stripPrefix attributeFieldPrefix field).bind e.attr

def numberText (n : F) : Bytes :=
  if lib.eq n (lib.ofInt (lib.toInt n)) then bytes (toString (lib.toInt n)) else lib.formatFloat n

/-- The text of a value that can be joined. -/
def valueText : Value F → Option Bytes
  | .string s => some s
  | .bool b => some (bytes (if b then "true" else "false"))
  | v => (number lib v).map (numberText lib)

def fieldValue (e : Entity F) (field : Bytes) : Option Bytes :=
  match (e.field field).bind (valueText lib) with
  | some s => if lib.trimSpace s = [] then none else some (lib.trimSpace s)
  | none => none

/-- The join values of the related entities that satisfy a clause. -/
def candidates (now : ℤ) (related : RelatedEntities F) (clause : RelatedClause F) : List Bytes :=
  (((related clause.connectorType).getD []).filter fun r =>
    r.kind = clause.entityKind && matchesAll lib now r clause.conditions).filterMap fun r =>
      (fieldValue lib r clause.join.relatedField).map lib.toLower

/-- A clause is violated by an entity, by the set of the clause. -/
def clauseViolated (candidateMap : List Bytes) (clause : RelatedClause F) (source : Entity F) :
    Bool :=
  let sourceFieldVal := (fieldValue lib source clause.join.sourceField).getD []
  if sourceFieldVal = [] then clause.mode = modeRequires
  else
    let found := decide (lib.toLower sourceFieldVal ∈ candidateMap)
    (clause.mode = modeRequires && !found) || (clause.mode = modeForbids && found)

/-- **The evaluation of a rule**: the entities that are matched, and whether the rule is skipped. -/
def evaluateWithRelated (now : ℤ) (rule : Rule F) (snapshot : List (Entity F))
    (related : RelatedEntities F) : List (Entity F) × Bool :=
  if rule.related = [] then (evaluate lib now rule snapshot, false)
  else if rule.related.any fun clause => (related clause.connectorType).isNone then ([], true)
  else
    let clauseMaps := rule.related.map fun clause => (clause, candidates lib now related clause)
    ((evaluate lib now rule snapshot).filter fun source =>
      clauseMaps.any fun c => clauseViolated lib c.2 c.1 source, false)

/-! ### What a rule means -/

/-- An entity is selected by the rule's own kind and conditions. -/
structure Selected (now : ℤ) (rule : Rule F) (e : Entity F) : Prop where
  kind : e.kind = rule.entityKind
  conditions : ∀ c ∈ rule.conditions, matchesCondition lib now e c = true

/-- The join values of two entities exist, are not blank, and are equal after trimming and
lower-casing. -/
def JoinValues (join : Join) (e r : Entity F) : Prop :=
  ∃ s t, (e.field join.sourceField).bind (valueText lib) = some s ∧
    (r.field join.relatedField).bind (valueText lib) = some t ∧
    lib.trimSpace s ≠ [] ∧ lib.trimSpace t ≠ [] ∧
    lib.toLower (lib.trimSpace s) = lib.toLower (lib.trimSpace t)

/-- **An entity is joined** by a clause: to a related entity that has the clause's kind and
satisfies its conditions. -/
def Joined (now : ℤ) (related : RelatedEntities F) (clause : RelatedClause F) (e : Entity F) :
    Prop :=
  ∃ es, related clause.connectorType = some es ∧ ∃ r ∈ es, r.kind = clause.entityKind ∧
    (∀ c ∈ clause.conditions, matchesCondition lib now r c = true) ∧
    JoinValues lib clause.join e r

/-- Some clause requires a joined entity that is missing, or forbids one that exists. -/
def Violates (now : ℤ) (related : RelatedEntities F) (rule : Rule F) (e : Entity F) : Prop :=
  ∃ clause ∈ rule.related,
    (clause.mode = modeRequires ∧ ¬ Joined lib now related clause e) ∨
      (clause.mode = modeForbids ∧ Joined lib now related clause e)

variable {lib} {now : ℤ} {rule : Rule F} {snapshot : List (Entity F)}
  {related related' : RelatedEntities F}

theorem matchesAll_iff {e : Entity F} {conditions : List (Condition F)} :
    matchesAll lib now e conditions = true ↔
      ∀ c ∈ conditions, matchesCondition lib now e c = true :=
  List.all_eq_true

theorem fieldValue_eq_some {e : Entity F} {field v : Bytes} :
    fieldValue lib e field = some v ↔ ∃ s, (e.field field).bind (valueText lib) = some s ∧
      lib.trimSpace s ≠ [] ∧ lib.trimSpace s = v := by
  rw [fieldValue]
  cases (e.field field).bind (valueText lib) with
  | none => simp
  | some s => simp

/-- **The set of a clause** has the join values of the related entities that satisfy it. -/
theorem mem_candidates {clause : RelatedClause F} {v : Bytes} :
    v ∈ candidates lib now related clause ↔
      ∃ es, related clause.connectorType = some es ∧ ∃ r ∈ es, r.kind = clause.entityKind ∧
        (∀ c ∈ clause.conditions, matchesCondition lib now r c = true) ∧
        ∃ t, fieldValue lib r clause.join.relatedField = some t ∧ lib.toLower t = v := by
  rw [candidates, List.mem_filterMap]
  simp only [List.mem_filter, Bool.and_eq_true, decide_eq_true_iff, matchesAll_iff,
    Option.map_eq_some_iff]
  cases related clause.connectorType with
  | none => simp
  | some es => simp [and_assoc]

/-- A value that is looked up is joined. -/
theorem mem_candidates_iff_joined {clause : RelatedClause F} {e : Entity F} {v : Bytes}
    (hv : fieldValue lib e clause.join.sourceField = some v) :
    lib.toLower v ∈ candidates lib now related clause ↔ Joined lib now related clause e := by
  obtain ⟨s, hs, hblank, rfl⟩ := fieldValue_eq_some.1 hv
  rw [mem_candidates, Joined]
  refine exists_congr fun es => and_congr_right fun _ => exists_congr fun r =>
    and_congr_right fun _ => and_congr_right fun _ => and_congr_right fun _ => ?_
  constructor
  · rintro ⟨t, ht, heq⟩
    obtain ⟨t', ht', hblank', rfl⟩ := fieldValue_eq_some.1 ht
    exact ⟨s, t', hs, ht', hblank, hblank', heq.symm⟩
  · rintro ⟨s', t', hs', ht', -, hblank', heq⟩
    obtain rfl := Option.some.inj (hs.symm.trans hs')
    exact ⟨_, fieldValue_eq_some.2 ⟨t', ht', hblank', rfl⟩, heq.symm⟩

/-- An entity without a join value is not joined. -/
theorem not_joined {clause : RelatedClause F} {e : Entity F}
    (hv : fieldValue lib e clause.join.sourceField = none) :
    ¬ Joined lib now related clause e := by
  rintro ⟨-, -, r, -, -, -, s, t, hs, -, hblank, -⟩
  have := fieldValue_eq_some.2 ⟨s, hs, hblank, rfl⟩
  rw [hv] at this
  cases this

theorem fieldValue_ne_nil {e : Entity F} {field v : Bytes}
    (h : fieldValue lib e field = some v) : v ≠ [] := by
  obtain ⟨s, -, hblank, rfl⟩ := fieldValue_eq_some.1 h
  exact hblank

/-- **Looking up is joining**: one clause. -/
theorem clauseViolated_iff {clause : RelatedClause F} {e : Entity F} :
    clauseViolated lib (candidates lib now related clause) clause e = true ↔
      (clause.mode = modeRequires ∧ ¬ Joined lib now related clause e) ∨
        (clause.mode = modeForbids ∧ Joined lib now related clause e) := by
  rw [clauseViolated]
  cases hv : fieldValue lib e clause.join.sourceField with
  | none =>
      have hno : ¬ Joined lib now related clause e := not_joined hv
      simp [hno]
  | some v =>
      rw [Option.getD_some]
      dsimp only
      rw [if_neg (fieldValue_ne_nil hv)]
      simp only [mem_candidates_iff_joined hv, Bool.or_eq_true, Bool.and_eq_true,
        decide_eq_true_iff, Bool.not_eq_true', decide_eq_false_iff_not]

/-- The clauses are violated as the rule means. -/
theorem violated_iff {e : Entity F} :
    ((rule.related.map fun clause => (clause, candidates lib now related clause)).any fun c =>
        clauseViolated lib c.2 c.1 e) = true ↔ Violates lib now related rule e := by
  rw [List.any_map, List.any_eq_true]
  exact exists_congr fun clause => and_congr_right fun _ => clauseViolated_iff

theorem evaluateWithRelated_snd (h : ∀ c ∈ rule.related, (related c.connectorType).isSome) :
    (rule.related.any fun clause => (related clause.connectorType).isNone) = false := by
  rw [List.any_eq_false]
  intro c hc
  rw [Option.isNone_iff_eq_none]
  exact Option.isSome_iff_ne_none.1 (h c hc)

variable (lib now snapshot) in
/-- What is matched: of the entities that are selected, all if the rule has no clauses, else those
that violate one. -/
theorem evaluateWithRelated_eq (h : ∀ c ∈ rule.related, (related c.connectorType).isSome) :
    ∃ p : Entity F → Bool, evaluateWithRelated lib now rule snapshot related =
        (snapshot.filter p, false) ∧
      ∀ e, p e = true ↔ Selected lib now rule e ∧
        (rule.related = [] ∨ Violates lib now related rule e) := by
  have hsel : ∀ e : Entity F, (decide (e.kind = rule.entityKind) &&
      matchesAll lib now e rule.conditions) = true ↔ Selected lib now rule e := by
    intro e
    rw [Bool.and_eq_true, decide_eq_true_iff, matchesAll_iff]
    exact ⟨fun h => ⟨h.1, h.2⟩, fun h => ⟨h.kind, h.conditions⟩⟩
  rw [evaluateWithRelated]
  by_cases hnone : rule.related = []
  · rw [if_pos hnone]
    exact ⟨_, rfl, fun e => (hsel e).trans (by simp [hnone])⟩
  · rw [if_neg hnone, evaluateWithRelated_snd h, if_neg Bool.false_ne_true, evaluate]
    dsimp only
    rw [List.filter_filter]
    refine ⟨_, rfl, fun e => ?_⟩
    rw [Bool.and_eq_true, violated_iff, hsel, and_comm]
    simp [hnone]

/-! ### More entities, and another order -/

/-- Related entities are added. -/
def Adds (related related' : RelatedEntities F) : Prop :=
  ∀ t es, related t = some es → ∃ es', related' t = some es' ∧ es ⊆ es'

theorem Joined.adds (h : Adds related related') {clause : RelatedClause F} {e : Entity F}
    (hj : Joined lib now related clause e) : Joined lib now related' clause e := by
  obtain ⟨es, hes, r, hr, hrest⟩ := hj
  obtain ⟨es', hes', hsub⟩ := h _ _ hes
  exact ⟨es', hes', r, hsub hr, hrest⟩

theorem Adds.isSome (h : Adds related related')
    (hpresent : ∀ c ∈ rule.related, (related c.connectorType).isSome) :
    ∀ c ∈ rule.related, (related' c.connectorType).isSome := by
  intro c hc
  obtain ⟨es, hes⟩ := Option.isSome_iff_exists.1 (hpresent c hc)
  obtain ⟨es', hes', -⟩ := h _ _ hes
  rw [hes']
  rfl

/-- With clauses that only require, fewer entities violate the rule. -/
theorem Violates.of_adds (h : Adds related related')
    (hmode : ∀ c ∈ rule.related, c.mode = modeRequires) {e : Entity F}
    (hv : Violates lib now related' rule e) : Violates lib now related rule e := by
  obtain ⟨clause, hclause, ⟨hm, hno⟩ | ⟨hm, -⟩⟩ := hv
  · exact ⟨clause, hclause, .inl ⟨hm, fun hj => hno (hj.adds h)⟩⟩
  · exact absurd ((hmode clause hclause).symm.trans hm) (by decide)

/-- With clauses that only forbid, more do. -/
theorem Violates.adds (h : Adds related related')
    (hmode : ∀ c ∈ rule.related, c.mode = modeForbids) {e : Entity F}
    (hv : Violates lib now related rule e) : Violates lib now related' rule e := by
  obtain ⟨clause, hclause, ⟨hm, -⟩ | ⟨hm, hj⟩⟩ := hv
  · exact absurd ((hmode clause hclause).symm.trans hm) (by decide)
  · exact ⟨clause, hclause, .inr ⟨hm, hj.adds h⟩⟩

/-- A clause with its conditions in another order. -/
structure RelatedClause.Reordered (clause clause' : RelatedClause F) : Prop where
  mode : clause.mode = clause'.mode
  connectorType : clause.connectorType = clause'.connectorType
  entityKind : clause.entityKind = clause'.entityKind
  join : clause.join = clause'.join
  conditions : clause.conditions.Perm clause'.conditions

/-- A rule with its conditions, its clauses and their conditions in another order. -/
structure Rule.Reordered (rule rule' : Rule F) : Prop where
  entityKind : rule.entityKind = rule'.entityKind
  conditions : rule.conditions.Perm rule'.conditions
  related : ∃ clauses, rule.related.Perm clauses ∧
    List.Forall₂ RelatedClause.Reordered clauses rule'.related

/-- The related entities in another order. -/
def SameEntities (related related' : RelatedEntities F) : Prop :=
  ∀ t, Option.Rel List.Perm (related t) (related' t)

theorem joined_reordered (h : SameEntities related related') {clause clause' : RelatedClause F}
    (hc : clause.Reordered clause') {e : Entity F} :
    Joined lib now related clause e ↔ Joined lib now related' clause' e := by
  have hrel := h clause.connectorType
  rw [Joined, Joined, ← hc.connectorType, ← hc.entityKind, ← hc.join]
  generalize related clause.connectorType = x at hrel ⊢
  generalize related' clause.connectorType = y at hrel ⊢
  cases hrel with
  | none => simp
  | some hperm =>
      simp only [Option.some.injEq, exists_eq_left', hperm.mem_iff, hc.conditions.mem_iff]

theorem exists_of_forall₂ {α β : Type} {r : α → β → Prop} {l : List α} {l' : List β}
    (h : List.Forall₂ r l l') : (∀ a ∈ l, ∃ b ∈ l', r a b) ∧ ∀ b ∈ l', ∃ a ∈ l, r a b := by
  induction h with
  | nil => simp
  | cons hr _ ih =>
      simp only [List.mem_cons, forall_eq_or_imp, exists_eq_or_imp]
      exact ⟨⟨.inl hr, fun a ha => .inr (ih.1 a ha)⟩, .inl hr, fun b hb => .inr (ih.2 b hb)⟩

/-- A clause that a reordered rule has comes from one of the rule. -/
theorem Rule.Reordered.exists_clause {rule' : Rule F} (h : rule.Reordered rule') :
    (∀ c ∈ rule.related, ∃ c' ∈ rule'.related, c.Reordered c') ∧
      ∀ c' ∈ rule'.related, ∃ c ∈ rule.related, c.Reordered c' := by
  obtain ⟨clauses, hperm, hall⟩ := h.related
  simp only [hperm.mem_iff]
  exact exists_of_forall₂ hall

theorem violates_reordered {rule' : Rule F} (hrule : rule.Reordered rule')
    (h : SameEntities related related') {e : Entity F} :
    Violates lib now related rule e ↔ Violates lib now related' rule' e := by
  obtain ⟨hforward, hback⟩ := hrule.exists_clause
  constructor
  · rintro ⟨c, hc, hv⟩
    obtain ⟨c', hc', hr⟩ := hforward c hc
    rw [joined_reordered h hr, hr.mode] at hv
    exact ⟨c', hc', hv⟩
  · rintro ⟨c', hc', hv⟩
    obtain ⟨c, hc, hr⟩ := hback c' hc'
    rw [← joined_reordered h hr, ← hr.mode] at hv
    exact ⟨c, hc, hv⟩

theorem selected_reordered {rule' : Rule F} (h : rule.Reordered rule') {e : Entity F} :
    Selected lib now rule e ↔ Selected lib now rule' e := by
  constructor
  · rintro ⟨hkind, hcond⟩
    exact ⟨hkind.trans h.entityKind, fun c hc => hcond c (h.conditions.mem_iff.2 hc)⟩
  · rintro ⟨hkind, hcond⟩
    exact ⟨hkind.trans h.entityKind.symm, fun c hc => hcond c (h.conditions.mem_iff.1 hc)⟩

theorem SameEntities.isSome (h : SameEntities related related') {rule' : Rule F}
    (hrule : rule.Reordered rule')
    (hpresent : ∀ c ∈ rule.related, (related c.connectorType).isSome) :
    ∀ c ∈ rule'.related, (related' c.connectorType).isSome := by
  intro c' hc'
  obtain ⟨c, hc, hr⟩ := hrule.exists_clause.2 c' hc'
  have hrel := h c.connectorType
  obtain ⟨es, hes⟩ := Option.isSome_iff_exists.1 (hpresent c hc)
  rw [hes, hr.connectorType] at hrel
  generalize related' c'.connectorType = x at hrel ⊢
  cases hrel
  rfl

theorem Rule.Reordered.related_eq_nil {rule' : Rule F} (h : rule.Reordered rule') :
    rule.related = [] ↔ rule'.related = [] := by
  obtain ⟨clauses, hperm, hall⟩ := h.related
  rw [← List.length_eq_zero_iff, ← List.length_eq_zero_iff, hperm.length_eq, hall.length_eq]

end Engine

/-- **A rule with related clauses**, of which every connector type is present, returns in snapshot
order the entities that it selects and that violate a clause, or all that it selects if it has no
clauses.  Related entities that are added cannot add a match when all clauses require, nor remove
one when all forbid, and no order but that of the snapshot counts. -/
theorem related_rules {F : Type} (lib : Library F) (now : ℤ) (rule : Rule F)
    (snapshot : List (Entity F)) (related : RelatedEntities F)
    (hpresent : ∀ c ∈ rule.related, (related c.connectorType).isSome) :
    (∃ p : Entity F → Bool,
      evaluateWithRelated lib now rule snapshot related = (snapshot.filter p, false) ∧
      ∀ e, p e = true ↔ Selected lib now rule e ∧
        (rule.related = [] ∨ Violates lib now related rule e)) ∧
    (∀ related', Adds related related' →
      ((∀ c ∈ rule.related, c.mode = modeRequires) →
        (evaluateWithRelated lib now rule snapshot related').1.Sublist
          (evaluateWithRelated lib now rule snapshot related).1) ∧
      ((∀ c ∈ rule.related, c.mode = modeForbids) →
        (evaluateWithRelated lib now rule snapshot related).1.Sublist
          (evaluateWithRelated lib now rule snapshot related').1)) ∧
    ∀ rule' related', rule.Reordered rule' → SameEntities related related' →
      evaluateWithRelated lib now rule' snapshot related' =
        evaluateWithRelated lib now rule snapshot related := by
  obtain ⟨p, heq, hp⟩ := evaluateWithRelated_eq lib now snapshot hpresent
  refine ⟨⟨p, heq, hp⟩, fun related' hadds => ?_, fun rule' related' hrule hsame => ?_⟩
  · obtain ⟨p', heq', hp'⟩ := evaluateWithRelated_eq lib now snapshot (hadds.isSome hpresent)
    rw [heq, heq']
    constructor
    · intro hmode
      refine List.monotone_filter_right snapshot fun e he => ?_
      exact (hp e).2 (((hp' e).1 he).imp_right (Or.imp_right (Violates.of_adds hadds hmode)))
    · intro hmode
      refine List.monotone_filter_right snapshot fun e he => ?_
      exact (hp' e).2 (((hp e).1 he).imp_right (Or.imp_right (Violates.adds hadds hmode)))
  · obtain ⟨p', heq', hp'⟩ := evaluateWithRelated_eq lib now snapshot (hsame.isSome hrule hpresent)
    rw [heq, heq']
    congr 1
    refine List.filter_congr fun e _ => Bool.eq_iff_iff.2 ?_
    rw [hp, hp', selected_reordered hrule, violates_reordered hrule hsame, hrule.related_eq_nil]

/-- A library with whole numbers only, for ASCII texts. -/
def wholeNumbers : Library ℤ where
  ofInt n := n
  toInt n := n
  eq x y := x = y
  lt x y := x < y
  isWhole _ := true
  parseFloat _ := none
  formatFloat n := bytes (toString n)
  toLower s := s.map fun b => if 65 ≤ b ∧ b ≤ 90 then b + 32 else b
  trimSpace s := ((s.dropWhile (· = 32)).reverse.dropWhile (· = 32)).reverse
  matchString _ _ := none
  parseTime _ := none
  floorDays d := d.toInt / 86400000000000

/-- A device with a MAC address. -/
def device (name mac : String) : Entity ℤ :=
  ⟨bytes "device", bytes name, [], [], [], bytes mac, [(bytes "managed", .bool true)]⟩

/-- Managed devices, with clauses. -/
def managedDevices (related : List (RelatedClause ℤ)) : Rule ℤ :=
  ⟨bytes "device", [⟨bytes "managed", bytes "eq", .bool true⟩], related⟩

/-- Each device must have a lease for its address. -/
def hasLease : RelatedClause ℤ :=
  ⟨modeRequires, bytes "dhcp", bytes "lease", ⟨bytes "mac", bytes "attributes.mac"⟩, []⟩

/-- One lease. -/
def leases : RelatedEntities ℤ := fun t =>
  if t = bytes "dhcp" then
    some [⟨bytes "lease", bytes "l1", [], [], [], [], [(bytes "mac", .string (bytes "aa:01 "))]⟩]
  else none

example : (evaluateWithRelated wholeNumbers 0 (managedDevices [hasLease])
    [device "tv" "AA:01", device "nas" "BB:02"] leases).1.map Entity.name = [bytes "nas"] := by
  decide

theorem related_rules_leases :
    ∃ p : Entity ℤ → Bool,
      evaluateWithRelated wholeNumbers 0 (managedDevices [hasLease])
          [device "tv" "AA:01", device "nas" "BB:02"] leases =
        ([device "tv" "AA:01", device "nas" "BB:02"].filter p, false) ∧
      ∀ e, p e = true ↔ Selected wholeNumbers 0 (managedDevices [hasLease]) e ∧
        ((managedDevices [hasLease]).related = [] ∨
          Violates wholeNumbers 0 leases (managedDevices [hasLease]) e) :=
  (related_rules wholeNumbers 0 (managedDevices [hasLease])
    [device "tv" "AA:01", device "nas" "BB:02"] leases (by decide)).1

/-- A rule without clauses returns all that it selects, though nothing violates a clause. -/
theorem rule_without_clauses :
    ¬ ∀ (F : Type) (lib : Library F) (now : ℤ) (rule : Rule F) (snapshot : List (Entity F))
      (related : RelatedEntities F),
      (∀ c ∈ rule.related, (related c.connectorType).isSome) →
      ∃ p : Entity F → Bool,
        evaluateWithRelated lib now rule snapshot related = (snapshot.filter p, false) ∧
        ∀ e ∈ snapshot, p e = true ↔
          Selected lib now rule e ∧ Violates lib now related rule e := by
  intro h
  obtain ⟨p, heq, hp⟩ := h ℤ wholeNumbers 0 (managedDevices []) [device "tv" "AA:01"] leases
    fun c hc => absurd hc List.not_mem_nil
  have hlen : (evaluateWithRelated wholeNumbers 0 (managedDevices []) [device "tv" "AA:01"]
      leases).1.length = 1 := by decide
  have hmatched : p (device "tv" "AA:01") = true := by
    rw [heq, List.filter_singleton] at hlen
    cases hpe : p (device "tv" "AA:01") with
    | true => rfl
    | false => simp [hpe] at hlen
  obtain ⟨-, clause, hclause, -⟩ := (hp _ List.mem_cons_self).1 hmatched
  exact absurd hclause List.not_mem_nil

end WiseLabz.RuleEngine
