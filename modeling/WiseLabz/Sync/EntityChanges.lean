/-
**What the changes of entities tell.**

The keyed map of a list has the last entity of each kind and key.  Between two lists each key has its
own changes: the entity was added, or removed, or each field that differs was changed.  A kind has
no NUL byte, which separates it from the key.

Main definitions:

* `Sync.lastEntity`, `Sync.SameEntity`, `Sync.SameMaps` — **the keyed maps**, and when they agree;
* `Sync.fieldValue`, `Sync.FieldSame` — the fields of an entity, and when two values agree.

Main results:

* `Sync.mem_fieldChanges` — the changes of an entity are those of the fields that differ;
* `Sync.mem_compareEntities` — **the changes between two lists**, key by key;
* `Sync.compareEntities_sorted` — each kind, key and field is listed once, in order.
-/

import WiseLabz.Lib.Joined
import WiseLabz.Sync.EntityDiff
import Mathlib.Data.Finset.Card
import Mathlib.Data.List.Find
import Mathlib.Data.List.Nodup
import Mathlib.Data.List.Sort

set_option relaxedAutoImplicit false
set_option autoImplicit false

namespace WiseLabz.Sync

open Lib

variable {ν : Type}

/-! ### The keyed maps -/

/-- The last entity with a kind and a key. -/
def lastEntity (entities : List (SnapshotEntity ν)) (kind key : Bytes) :
    Option (SnapshotEntity ν) :=
  entities.reverse.find? fun e => e.kind = kind ∧ entityKey e = key

/-- The entities agree, up to the order of the aliases. -/
structure SameEntity (e e' : SnapshotEntity ν) : Prop where
  kind : e.kind = e'.kind
  externalID : e.externalID = e'.externalID
  name : e.name = e'.name
  ip : e.ip = e'.ip
  hostname : e.hostname = e'.hostname
  mac : e.mac = e'.mac
  aliases : e.aliases.Perm e'.aliases
  attributes : ∀ attr, e.attributes.get attr = e'.attributes.get attr

/-- Two keyed maps agree. -/
def SameMaps (m m' : Bytes → Bytes → Option (SnapshotEntity ν)) : Prop :=
  ∀ kind key, Option.Rel SameEntity (m kind key) (m' kind key)

/-- The kinds have no NUL byte. -/
def CleanKinds (entities : List (SnapshotEntity ν)) : Prop := ∀ e ∈ entities, 0 ∉ e.kind

instance (entities : List (SnapshotEntity ν)) : Decidable (CleanKinds entities) :=
  inferInstanceAs (Decidable (∀ e ∈ entities, 0 ∉ e.kind))

theorem lastEntity_spec {entities : List (SnapshotEntity ν)} {kind key : Bytes}
    {e : SnapshotEntity ν} (h : lastEntity entities kind key = some e) :
    e ∈ entities ∧ e.kind = kind ∧ entityKey e = key := by
  have hkey := List.find?_some h
  exact ⟨List.mem_reverse.1 (List.mem_of_find?_eq_some h), by simpa using hkey⟩

/-- The map of the program has the last entity of each kind and key. -/
theorem lookup_entityMap {entities : List (SnapshotEntity ν)} (h : CleanKinds entities)
    {kind : Bytes} (hkind : 0 ∉ kind) (key : Bytes) :
    lookup mapKey (entityMap entities) (kind ++ 0 :: key) = lastEntity entities kind key := by
  rw [entityMap, lookup_putAll_reverse, lookup_nil, Option.or_none, lookup, lastEntity]
  refine List.find?_congr fun e he => ?_
  rw [decide_eq_decide, mapKey]
  constructor
  · intro heq
    exact append_cons_inj (h e (List.mem_reverse.1 he)) hkind heq
  · rintro ⟨rfl, rfl⟩
    rfl

theorem externalID_eq_of_key {e e' : SnapshotEntity ν} (h : entityKey e = entityKey e') :
    e.externalID = e'.externalID := by
  unfold entityKey at h
  by_cases he : e.externalID = [] <;> by_cases he' : e'.externalID = []
  · rw [he, he']
  · rw [if_neg (not_not.2 he), if_pos he'] at h
    exact absurd (congrArg List.head? h) (by simp [bytes])
  · rw [if_pos he, if_neg (not_not.2 he')] at h
    exact absurd (congrArg List.head? h) (by simp [bytes])
  · rw [if_pos he, if_pos he'] at h
    exact List.append_cancel_left h

/-! ### The order of the changes -/

/-- What a change is told by. -/
def EntityChange.path (c : EntityChange ν) : List Bytes := [c.kind, c.key, c.field]

theorem changeLess_iff (a b : EntityChange ν) : changeLess a b = true ↔ a.path < b.path := by
  rw [changeLess, EntityChange.path, EntityChange.path, List.cons_lt_cons_iff,
    List.cons_lt_cons_iff, List.cons_lt_cons_iff]
  by_cases hkind : a.kind = b.kind
  · by_cases hkey : a.key = b.key
    · simp [hkind, hkey, Std.lt_irrefl]
    · simp [hkind, hkey, Std.lt_irrefl]
  · simp [hkind]

theorem not_changeLess (a b : EntityChange ν) : ¬ changeLess b a = true ↔ a.path ≤ b.path := by
  rw [changeLess_iff]
  exact Std.not_lt

instance : Std.Total fun a b : EntityChange ν => ¬ changeLess b a = true :=
  ⟨fun a b => by simp only [not_changeLess]; exact Std.le_total⟩

instance : IsTrans (EntityChange ν) fun a b => ¬ changeLess b a = true :=
  ⟨fun a b c => by simp only [not_changeLess]; exact Std.le_trans⟩

theorem sortedNames_eq_iff {l l' : List Bytes} : sortedNames l = sortedNames l' ↔ l.Perm l' := by
  have htotal : Std.Total fun a b : Bytes => ¬ b < a :=
    ⟨fun a b => by simp only [Std.not_lt]; exact Std.le_total⟩
  have htrans : IsTrans Bytes fun a b => ¬ b < a :=
    ⟨fun a b c => by simp only [Std.not_lt]; exact Std.le_trans⟩
  have hperm : ∀ l : List Bytes, (sortedNames l).Perm l := List.perm_insertionSort _
  have hsorted : ∀ l : List Bytes, (sortedNames l).Pairwise fun a b => ¬ b < a :=
    List.pairwise_insertionSort _
  constructor
  · intro h
    exact (hperm l).symm.trans (h ▸ hperm l')
  · intro h
    refine List.Perm.eq_of_pairwise ?_ (hsorted l) (hsorted l')
      ((hperm l).trans (h.trans (hperm l').symm))
    intro a b _ _ hab hba
    exact Std.le_antisymm (Std.not_lt.1 hab) (Std.not_lt.1 hba)

/-- The names of two lists, each once. -/
theorem mem_sortedNames_union {l l' : List Bytes} {a : Bytes} :
    a ∈ sortedNames (l ++ l'.filter fun a => a ∉ l) ↔ a ∈ l ∨ a ∈ l' := by
  rw [sortedNames, List.mem_insertionSort, List.mem_append, List.mem_filter, decide_eq_true_eq]
  constructor
  · rintro (h | ⟨h, -⟩)
    · exact Or.inl h
    · exact Or.inr h
  · intro h
    by_cases hl : a ∈ l
    · exact Or.inl hl
    · exact Or.inr ⟨h.resolve_left hl, hl⟩

theorem nodup_sortedNames_union {l l' : List Bytes} (hl : l.Nodup) (hl' : l'.Nodup) :
    (sortedNames (l ++ l'.filter fun a => a ∉ l)).Nodup := by
  refine (List.perm_insertionSort _ _).nodup_iff.2 (List.nodup_append.2 ⟨hl, hl'.filter _, ?_⟩)
  rintro a ha b hb rfl
  have hnot := (List.mem_filter.1 hb).2
  rw [decide_eq_true_eq] at hnot
  exact hnot ha

/-! ### Fields -/

/-- The value of a field, if the entity has the field; a JSON null is `some none`. -/
def fieldValue (e : SnapshotEntity ν) (field : Bytes) : Option (Option (FieldValue ν)) :=
  match stripPrefix (bytes "attributes.") field with
  | some attr => (e.attributes.get attr).map fun v => v.map .value
  | none =>
      if field = bytes "name" then some (some (.text e.name))
      else if field = bytes "ip" then some (some (.text e.ip))
      else if field = bytes "hostname" then some (some (.text e.hostname))
      else if field = bytes "mac" then some (some (.text e.mac))
      else if field = bytes "aliases" then some (some (.names e.aliases))
      else none

/-- The values agree, up to the order of aliases. -/
def FieldSame (a b : Option (Option (FieldValue ν))) : Prop :=
  a = b ∨ ∃ l l', a = some (some (.names l)) ∧ b = some (some (.names l')) ∧ l.Perm l'

theorem FieldSame.symm {a b : Option (Option (FieldValue ν))} (h : FieldSame a b) :
    FieldSame b a := by
  rcases h with h | ⟨l, l', ha, hb, hperm⟩
  · exact Or.inl h.symm
  · exact Or.inr ⟨l', l, hb, ha, hperm.symm⟩

@[simp] theorem stripPrefix_attributeField (attr : Bytes) :
    stripPrefix (bytes "attributes.") (attributeField attr) = some attr := stripPrefix_append _ _

@[simp] theorem fieldValue_attribute (e : SnapshotEntity ν) (attr : Bytes) :
    fieldValue e (attributeField attr) = (e.attributes.get attr).map fun v => v.map .value := by
  rw [fieldValue, stripPrefix_attributeField]

@[simp] theorem fieldValue_name (e : SnapshotEntity ν) :
    fieldValue e (bytes "name") = some (some (.text e.name)) := rfl

@[simp] theorem fieldValue_ip (e : SnapshotEntity ν) :
    fieldValue e (bytes "ip") = some (some (.text e.ip)) := rfl

@[simp] theorem fieldValue_hostname (e : SnapshotEntity ν) :
    fieldValue e (bytes "hostname") = some (some (.text e.hostname)) := rfl

@[simp] theorem fieldValue_mac (e : SnapshotEntity ν) :
    fieldValue e (bytes "mac") = some (some (.text e.mac)) := rfl

@[simp] theorem fieldValue_aliases (e : SnapshotEntity ν) :
    fieldValue e (bytes "aliases") = some (some (.names e.aliases)) := rfl

@[simp] theorem fieldValue_entity (e : SnapshotEntity ν) :
    fieldValue e (bytes "entity") = none := rfl

/-- The names of fields. -/
inductive IsField : Bytes → Prop
  | name : IsField (bytes "name")
  | ip : IsField (bytes "ip")
  | hostname : IsField (bytes "hostname")
  | mac : IsField (bytes "mac")
  | aliases : IsField (bytes "aliases")
  | attr (attr : Bytes) : IsField (attributeField attr)

theorem IsField.of_fieldValue {e : SnapshotEntity ν} {field : Bytes}
    {v : Option (FieldValue ν)} (h : fieldValue e field = some v) : IsField field := by
  unfold fieldValue at h
  split at h
  · next attr hattr =>
      rw [stripPrefix_eq_some.1 hattr]
      exact .attr attr
  · split at h
    · next hf => exact hf ▸ .name
    · split at h
      · next hf => exact hf ▸ .ip
      · split at h
        · next hf => exact hf ▸ .hostname
        · split at h
          · next hf => exact hf ▸ .mac
          · split at h
            · next hf => exact hf ▸ .aliases
            · cases h

/-- A field that differs is one. -/
theorem IsField.of_not_same {e e' : SnapshotEntity ν} {field : Bytes}
    (h : ¬ FieldSame (fieldValue e field) (fieldValue e' field)) : IsField field := by
  cases he : fieldValue e field with
  | some v => exact .of_fieldValue he
  | none =>
      cases he' : fieldValue e' field with
      | some v => exact .of_fieldValue he'
      | none => exact (h (Or.inl (by rw [he, he']))).elim

theorem map_value_inj {a b : Option (Option ν)}
    (h : (a.map fun v => v.map FieldValue.value) = b.map fun v => v.map FieldValue.value) :
    a = b := by
  refine Option.map_injective ?_ h
  refine Option.map_injective ?_
  intro v w hvw
  exact FieldValue.value.inj hvw

theorem fieldSame_attribute (e e' : SnapshotEntity ν) (attr : Bytes) :
    FieldSame (fieldValue e (attributeField attr)) (fieldValue e' (attributeField attr)) ↔
      e.attributes.get attr = e'.attributes.get attr := by
  rw [fieldValue_attribute, fieldValue_attribute]
  constructor
  · rintro (h | ⟨l, l', h, -⟩)
    · exact map_value_inj h
    · obtain ⟨v, -, hv⟩ := Option.map_eq_some_iff.1 h
      obtain ⟨w, -, hw⟩ := Option.map_eq_some_iff.1 hv
      cases hw
  · intro h
    rw [h]
    exact Or.inl rfl

theorem fieldSame_text (a b : Bytes) :
    FieldSame (some (some (.text a)) : Option (Option (FieldValue ν))) (some (some (.text b))) ↔
      a = b := by
  constructor
  · rintro (h | ⟨l, l', h, -⟩)
    · exact FieldValue.text.inj (Option.some.inj (Option.some.inj h))
    · cases h
  · rintro rfl
    exact Or.inl rfl

theorem fieldSame_names (l l' : List Bytes) :
    FieldSame (some (some (.names l)) : Option (Option (FieldValue ν))) (some (some (.names l'))) ↔
      l.Perm l' := by
  constructor
  · rintro (h | ⟨_, _, h, h', hperm⟩)
    · exact List.Perm.of_eq (FieldValue.names.inj (Option.some.inj (Option.some.inj h)))
    · rw [FieldValue.names.inj (Option.some.inj (Option.some.inj h)),
        FieldValue.names.inj (Option.some.inj (Option.some.inj h'))]
      exact hperm
  · exact fun h => Or.inr ⟨l, l', rfl, rfl, h⟩

/-- Entities agree when their fields do. -/
theorem sameEntity_iff {e e' : SnapshotEntity ν} : SameEntity e e' ↔
    e.kind = e'.kind ∧ e.externalID = e'.externalID ∧
      ∀ field, FieldSame (fieldValue e field) (fieldValue e' field) := by
  constructor
  · intro h
    refine ⟨h.kind, h.externalID, ?_⟩
    intro field
    by_contra hne
    cases IsField.of_not_same hne with
    | name => exact hne ((fieldSame_text _ _).2 h.name)
    | ip => exact hne ((fieldSame_text _ _).2 h.ip)
    | hostname => exact hne ((fieldSame_text _ _).2 h.hostname)
    | mac => exact hne ((fieldSame_text _ _).2 h.mac)
    | aliases => exact hne ((fieldSame_names _ _).2 h.aliases)
    | attr attr => exact hne ((fieldSame_attribute _ _ attr).2 (h.attributes attr))
  · rintro ⟨hkind, hid, h⟩
    exact ⟨hkind, hid, (fieldSame_text _ _).1 (h (bytes "name")),
      (fieldSame_text _ _).1 (h (bytes "ip")), (fieldSame_text _ _).1 (h (bytes "hostname")),
      (fieldSame_text _ _).1 (h (bytes "mac")), (fieldSame_names _ _).1 (h (bytes "aliases")),
      fun attr => (fieldSame_attribute _ _ attr).1 (h (attributeField attr))⟩

/-! ### The changes of an entity -/

/-- The change of a field from a value to another. -/
def changeOf (e : SnapshotEntity ν) (field : Bytes) (a b : Option (Option (FieldValue ν))) :
    EntityChange ν where
  kind := e.kind
  key := entityKey e
  name := e.name
  field := field
  change := if a = none then .added else if b = none then .removed else .modified
  old := a.join
  new := b.join

variable [DecidableEq ν]

theorem addField_eq (e : SnapshotEntity ν) (field : Bytes) (a b : Option (Option (FieldValue ν))) :
    addField e field a.join b.join a.isSome b.isSome =
      if a = b ∧ a ≠ none then [] else [changeOf e field a b] := by
  cases a with
  | none => cases b <;> simp [addField, changeOf]
  | some a =>
      cases b with
      | none => simp [addField, changeOf]
      | some b => simp [addField, changeOf]

/-- The change of a field that both entities have. -/
theorem addField_some (e : SnapshotEntity ν) (field : Bytes) (a b : FieldValue ν) :
    addField e field (some a) (some b) true true =
      if a = b then [] else [changeOf e field (some (some a)) (some (some b))] := by
  have h := addField_eq e field (some (some a)) (some (some b))
  simpa using h

omit [DecidableEq ν] in
theorem mem_attributeKeys {old newer : SnapshotEntity ν} {attr : Bytes} :
    attr ∈ attributeKeys old newer ↔
      old.attributes.get attr ≠ none ∨ newer.attributes.get attr ≠ none := by
  rw [attributeKeys, mem_sortedNames_union, ← Option.isSome_iff_ne_none,
    ← Option.isSome_iff_ne_none, ← Dict.mem_keys, ← Dict.mem_keys]

/-- The changes of the attributes. -/
theorem mem_attributeChanges {old newer : SnapshotEntity ν} {c : EntityChange ν} :
    (c ∈ (attributeKeys old newer).flatMap fun attr =>
      addField newer (attributeField attr) ((old.attributes.get attr).join.map .value)
        ((newer.attributes.get attr).join.map .value) (old.attributes.get attr).isSome
        (newer.attributes.get attr).isSome) ↔
      ∃ attr, old.attributes.get attr ≠ newer.attributes.get attr ∧
        c = changeOf newer (attributeField attr) (fieldValue old (attributeField attr))
          (fieldValue newer (attributeField attr)) := by
  have hjoin : ∀ (a : Option (Option ν)),
      (a.join.map FieldValue.value) = (a.map fun v => v.map FieldValue.value).join ∧
        a.isSome = (a.map fun v => v.map FieldValue.value).isSome := by
    intro a
    cases a <;> simp
  have hone : ∀ attr, addField newer (attributeField attr)
      ((old.attributes.get attr).join.map .value) ((newer.attributes.get attr).join.map .value)
      (old.attributes.get attr).isSome (newer.attributes.get attr).isSome =
        if old.attributes.get attr = newer.attributes.get attr ∧ old.attributes.get attr ≠ none then []
        else [changeOf newer (attributeField attr) (fieldValue old (attributeField attr))
          (fieldValue newer (attributeField attr))] := by
    intro attr
    rw [(hjoin (old.attributes.get attr)).1, (hjoin (newer.attributes.get attr)).1,
      (hjoin (old.attributes.get attr)).2, (hjoin (newer.attributes.get attr)).2, addField_eq,
      fieldValue_attribute, fieldValue_attribute]
    refine if_congr (and_congr ⟨map_value_inj, fun h => by rw [h]⟩ ?_) rfl rfl
    simp
  simp only [List.mem_flatMap, mem_attributeKeys, hone]
  constructor
  · rintro ⟨attr, hattr, hc⟩
    split at hc
    · exact absurd hc List.not_mem_nil
    · next hne =>
        refine ⟨attr, ?_, List.mem_singleton.1 hc⟩
        intro heq
        rcases hattr with h | h
        · exact hne ⟨heq, h⟩
        · exact hne ⟨heq, heq ▸ h⟩
  · rintro ⟨attr, hne, rfl⟩
    refine ⟨attr, ?_, ?_⟩
    · by_contra hnone
      rw [not_or, not_not, not_not] at hnone
      exact hne (hnone.1.trans hnone.2.symm)
    · rw [if_neg fun h => hne h.1]
      exact List.mem_singleton.2 rfl

/-- **The changes of an entity** are those of the fields that differ. -/
theorem mem_fieldChanges {old newer : SnapshotEntity ν} {c : EntityChange ν} :
    c ∈ fieldChanges old newer ↔
      ∃ field, ¬ FieldSame (fieldValue old field) (fieldValue newer field) ∧
        c = changeOf newer field (fieldValue old field) (fieldValue newer field) := by
  have htext : ∀ (field : Bytes) (a b : Bytes),
      c ∈ addField newer field (some (.text a)) (some (.text b)) true true ↔
        a ≠ b ∧ c = changeOf newer field (some (some (.text a))) (some (some (.text b))) := by
    intro field a b
    rw [addField_some]
    by_cases h : a = b
    · simp [h]
    · simp [h]
  have haliases : (c ∈ if sortedNames old.aliases ≠ sortedNames newer.aliases then
        addField newer (bytes "aliases") (some (.names old.aliases)) (some (.names newer.aliases))
          true true
      else []) ↔ ¬ old.aliases.Perm newer.aliases ∧ c = changeOf newer (bytes "aliases")
        (some (some (.names old.aliases))) (some (some (.names newer.aliases))) := by
    rw [← sortedNames_eq_iff, addField_some]
    by_cases h : sortedNames old.aliases = sortedNames newer.aliases
    · simp [h]
    · have hne : ¬ (FieldValue.names old.aliases : FieldValue ν) = .names newer.aliases := by
        intro heq
        rw [FieldValue.names.inj heq] at h
        exact h rfl
      simp [h, hne]
  rw [fieldChanges]
  simp only [List.mem_append, htext, haliases, mem_attributeChanges]
  constructor
  · rintro (((((⟨h, rfl⟩ | ⟨h, rfl⟩) | ⟨h, rfl⟩) | ⟨h, rfl⟩) | ⟨h, rfl⟩) | ⟨attr, h, rfl⟩)
    · exact ⟨bytes "name", fun hs => h ((fieldSame_text _ _).1 hs), rfl⟩
    · exact ⟨bytes "ip", fun hs => h ((fieldSame_text _ _).1 hs), rfl⟩
    · exact ⟨bytes "hostname", fun hs => h ((fieldSame_text _ _).1 hs), rfl⟩
    · exact ⟨bytes "mac", fun hs => h ((fieldSame_text _ _).1 hs), rfl⟩
    · exact ⟨bytes "aliases", fun hs => h ((fieldSame_names _ _).1 hs), rfl⟩
    · exact ⟨attributeField attr, fun hs => h ((fieldSame_attribute _ _ _).1 hs), rfl⟩
  · rintro ⟨field, h, rfl⟩
    cases IsField.of_not_same h with
    | name => exact .inl (.inl (.inl (.inl (.inl ⟨fun hs => h ((fieldSame_text _ _).2 hs), rfl⟩))))
    | ip => exact .inl (.inl (.inl (.inl (.inr ⟨fun hs => h ((fieldSame_text _ _).2 hs), rfl⟩))))
    | hostname => exact .inl (.inl (.inl (.inr ⟨fun hs => h ((fieldSame_text _ _).2 hs), rfl⟩)))
    | mac => exact .inl (.inl (.inr ⟨fun hs => h ((fieldSame_text _ _).2 hs), rfl⟩))
    | aliases => exact .inl (.inr ⟨fun hs => h ((fieldSame_names _ _).2 hs), rfl⟩)
    | attr attr => exact .inr ⟨attr, fun hs => h ((fieldSame_attribute _ _ _).2 hs), rfl⟩

/-! ### The changes between two lists -/

/-- A change under a key is about an entity with the key. -/
theorem key_of_mem_entityChanges {a b : Option (SnapshotEntity ν)} {c : EntityChange ν}
    (h : c ∈ entityChanges a b) :
    ∃ e, (a = some e ∨ b = some e) ∧ c.kind = e.kind ∧ c.key = entityKey e := by
  match a, b, h with
  | none, none, h => exact absurd h List.not_mem_nil
  | none, some e, h =>
      obtain rfl := List.mem_singleton.1 h
      exact ⟨e, Or.inr rfl, rfl, rfl⟩
  | some e, none, h =>
      obtain rfl := List.mem_singleton.1 h
      exact ⟨e, Or.inl rfl, rfl, rfl⟩
  | some _, some e, h =>
      obtain ⟨field, -, rfl⟩ := mem_fieldChanges.1 h
      exact ⟨e, Or.inr rfl, rfl, rfl⟩

theorem addField_fields (e : SnapshotEntity ν) (field : Bytes) (a b : Option (FieldValue ν))
    (oldExists newExists : Bool) :
    ((addField e field a b oldExists newExists).map EntityChange.field).Sublist [field] := by
  unfold addField
  split
  · exact List.nil_sublist _
  · exact List.Sublist.refl _

/-- A field is changed once. -/
theorem fieldChanges_nodup (old newer : SnapshotEntity ν) :
    ((fieldChanges old newer).map EntityChange.field).Nodup := by
  have hsub : ((fieldChanges old newer).map EntityChange.field).Sublist
      ([bytes "name"] ++ [bytes "ip"] ++ [bytes "hostname"] ++ [bytes "mac"] ++ [bytes "aliases"] ++
        (attributeKeys old newer).map attributeField) := by
    rw [fieldChanges]
    simp only [List.map_append]
    refine List.Sublist.append (List.Sublist.append (List.Sublist.append (List.Sublist.append
      (List.Sublist.append ?_ ?_) ?_) ?_) ?_) ?_
    · exact addField_fields _ _ _ _ _ _
    · exact addField_fields _ _ _ _ _ _
    · exact addField_fields _ _ _ _ _ _
    · exact addField_fields _ _ _ _ _ _
    · split
      · exact addField_fields _ _ _ _ _ _
      · exact List.nil_sublist _
    · rw [List.map_flatMap]
      induction attributeKeys old newer with
      | nil => exact List.nil_sublist _
      | cons attr attrs ih =>
          rw [List.flatMap_cons]
          exact (addField_fields _ _ _ _ _ _).append ih
  refine List.Nodup.sublist hsub (List.nodup_append.2 ⟨by decide, ?_, ?_⟩)
  · have hkeys : (attributeKeys old newer).Nodup :=
      nodup_sortedNames_union old.attributes.keys_nodup newer.attributes.keys_nodup
    exact hkeys.map fun a b h => List.append_cancel_left h
  · rintro a ha b hb rfl
    obtain ⟨attr, -, rfl⟩ := List.mem_map.1 hb
    have hnone : ∀ f ∈ [bytes "name"] ++ [bytes "ip"] ++ [bytes "hostname"] ++ [bytes "mac"] ++
        [bytes "aliases"], stripPrefix (bytes "attributes.") f = none := by decide
    have := hnone _ ha
    rw [stripPrefix_attributeField] at this
    cases this

omit [DecidableEq ν] in
theorem mem_diffKeys {before after : List (SnapshotEntity ν)} {k : Bytes} :
    k ∈ diffKeys before after ↔
      (lookup mapKey before k).isSome = true ∨ (lookup mapKey after k).isSome = true := by
  rw [diffKeys, mem_sortedNames_union, lookup_isSome, lookup_isSome, List.mem_map, List.mem_map]

/-- **The changes between two lists**, key by key. -/
theorem mem_compareEntities {prev curr : List (SnapshotEntity ν)} (hprev : CleanKinds prev)
    (hcurr : CleanKinds curr) {c : EntityChange ν} : c ∈ compareEntities prev curr ↔
      c ∈ entityChanges (lastEntity prev c.kind c.key) (lastEntity curr c.kind c.key) := by
  rw [compareEntities, List.mem_insertionSort, List.mem_flatMap]
  have hclean : ∀ {e : SnapshotEntity ν} {k}, lookup mapKey (entityMap prev) k = some e ∨
      lookup mapKey (entityMap curr) k = some e → 0 ∉ e.kind ∧ mapKey e = k := by
    rintro e k (h | h)
    · obtain ⟨hmem, hkey⟩ := lookup_eq_some h
      exact ⟨hprev e ((mem_putAll hmem).resolve_right List.not_mem_nil), hkey⟩
    · obtain ⟨hmem, hkey⟩ := lookup_eq_some h
      exact ⟨hcurr e ((mem_putAll hmem).resolve_right List.not_mem_nil), hkey⟩
  constructor
  · rintro ⟨k, -, hc⟩
    obtain ⟨e, he, hkind, hkey⟩ := key_of_mem_entityChanges hc
    obtain ⟨hzero, rfl⟩ := hclean he
    rw [keyChanges, mapKey, lookup_entityMap hprev hzero, lookup_entityMap hcurr hzero] at hc
    rwa [hkind, hkey]
  · intro hc
    obtain ⟨e, he, hkind, hkey⟩ := key_of_mem_entityChanges hc
    have hzero : 0 ∉ c.kind := by
      rw [hkind]
      rcases he with he | he
      · exact hprev e (lastEntity_spec he).1
      · exact hcurr e (lastEntity_spec he).1
    rw [← lookup_entityMap hprev hzero, ← lookup_entityMap hcurr hzero] at hc he
    refine ⟨c.kind ++ 0 :: c.key, mem_diffKeys.2 ?_, hc⟩
    rcases he with he | he
    · exact Or.inl (by rw [he]; rfl)
    · exact Or.inr (by rw [he]; rfl)

/-- **Each kind, key and field is listed once, in order.** -/
theorem compareEntities_sorted (prev curr : List (SnapshotEntity ν)) :
    (compareEntities prev curr).Pairwise fun a b => changeLess a b = true := by
  have hkeys : (diffKeys (entityMap prev) (entityMap curr)).Nodup :=
    nodup_sortedNames_union (KeyNodup.putAll keyNodup_nil prev) (KeyNodup.putAll keyNodup_nil curr)
  have hkey : ∀ {k} {c : EntityChange ν}, c ∈ keyChanges (entityMap prev) (entityMap curr) k →
      c.kind ++ 0 :: c.key = k := by
    intro k c hc
    obtain ⟨e, he, hkind, hekey⟩ := key_of_mem_entityChanges hc
    rw [hkind, hekey]
    rcases he with he | he
    · exact (lookup_eq_some he).2
    · exact (lookup_eq_some he).2
  have hpaths : ((compareEntities prev curr).map EntityChange.path).Nodup := by
    refine ((List.perm_insertionSort _ _).map _).nodup_iff.2 ?_
    rw [List.map_flatMap, List.nodup_flatMap]
    refine ⟨?_, ?_⟩
    · intro k _
      have hfields : ((keyChanges (entityMap prev) (entityMap curr) k).map
          EntityChange.field).Nodup := by
        rw [keyChanges]
        match lookup mapKey (entityMap prev) k, lookup mapKey (entityMap curr) k with
        | none, none => exact List.nodup_nil
        | none, some _ => exact List.nodup_singleton _
        | some _, none => exact List.nodup_singleton _
        | some old, some newer => exact fieldChanges_nodup old newer
      refine List.Nodup.of_map (fun p => p.getD 2 []) ?_
      rwa [List.map_map]
    · refine hkeys.imp ?_
      intro k k' hne p hp hp'
      obtain ⟨c, hc, rfl⟩ := List.mem_map.1 hp
      obtain ⟨d, hd, hcd⟩ := List.mem_map.1 hp'
      obtain ⟨hkind, hrest⟩ := List.cons.inj hcd
      obtain ⟨hckey, -⟩ := List.cons.inj hrest
      exact hne (by rw [← hkey hc, ← hkey hd, hkind, hckey])
  have hsorted : (compareEntities prev curr).Pairwise fun a b => ¬ changeLess b a = true :=
    List.pairwise_insertionSort _ _
  refine (hsorted.and (List.pairwise_map.1 hpaths)).imp ?_
  rintro a b ⟨hle, hne⟩
  rw [changeLess_iff]
  exact Std.lt_of_le_of_ne ((not_changeLess a b).1 hle) hne

end WiseLabz.Sync
