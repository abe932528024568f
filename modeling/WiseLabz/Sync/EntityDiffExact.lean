/-
**The changes of entities are exact.**

The changes between two lists are sound and complete for the keyed maps: there is none exactly when
the maps agree, applying them to the old map gives the new one, and comparing the other way round
exchanges old and new.  The name in a change is the current one, so that is exchanged as well.

Main definitions:

* `Sync.setField`, `Sync.applyChange` — applying a change to an entity, and to a keyed map;
* `Sync.exchanged` — the change the other way round.

Main results:

* `Sync.compareEntities_eq_nil` — there is no change exactly when the maps agree;
* `Sync.foldl_applyChange` — applying the changes gives the new map;
* `Sync.compareEntities_exchange` — comparing the other way round;
* `Sync.entityCounts_length` — the counters;
* `Sync.compareEntities_exact` — **what the changes tell**.
-/

import WiseLabz.Sync.EntityChanges
import Mathlib.Data.Set.Card

set_option relaxedAutoImplicit false
set_option autoImplicit false

namespace WiseLabz.Sync

open Lib

variable {ν : Type} [DecidableEq ν]

/-! ### No change -/

/-- There is no change under a key exactly when what is there agrees. -/
theorem entityChanges_eq_nil {a b : Option (SnapshotEntity ν)}
    (hkey : ∀ e e', a = some e → b = some e' → e.kind = e'.kind ∧ entityKey e = entityKey e') :
    entityChanges a b = [] ↔ Option.Rel SameEntity a b := by
  match a, b with
  | none, none => exact ⟨fun _ => .none, fun _ => rfl⟩
  | none, some _ => exact ⟨fun h => (List.cons_ne_nil _ _ h).elim, fun h => nomatch h⟩
  | some _, none => exact ⟨fun h => (List.cons_ne_nil _ _ h).elim, fun h => nomatch h⟩
  | some old, some newer =>
      obtain ⟨hkind, hkey⟩ := hkey old newer rfl rfl
      rw [entityChanges, List.eq_nil_iff_forall_not_mem]
      constructor
      · intro h
        refine .some (sameEntity_iff.2 ⟨hkind, externalID_eq_of_key hkey, ?_⟩)
        intro field
        by_contra hne
        exact h _ (mem_fieldChanges.2 ⟨field, hne, rfl⟩)
      · intro h c hc
        obtain ⟨field, hne, -⟩ := mem_fieldChanges.1 hc
        cases h with
        | some h => exact hne ((sameEntity_iff.1 h).2.2 field)

variable {prev curr : List (SnapshotEntity ν)}

omit [DecidableEq ν] in
/-- What two lists have under a key has this key. -/
theorem lastEntity_keys {kind key : Bytes} : ∀ e e' : SnapshotEntity ν,
    lastEntity prev kind key = some e → lastEntity curr kind key = some e' →
      e.kind = e'.kind ∧ entityKey e = entityKey e' := by
  intro e e' h h'
  obtain ⟨-, hkind, hkey⟩ := lastEntity_spec h
  obtain ⟨-, hkind', hkey'⟩ := lastEntity_spec h'
  exact ⟨hkind.trans hkind'.symm, hkey.trans hkey'.symm⟩

/-- A change under a key is told under this key. -/
theorem changes_key {kind key : Bytes} {c : EntityChange ν}
    (h : c ∈ entityChanges (lastEntity prev kind key) (lastEntity curr kind key)) :
    c.kind = kind ∧ c.key = key := by
  obtain ⟨e, he, hkind, hkey⟩ := key_of_mem_entityChanges h
  have hspec : e.kind = kind ∧ entityKey e = key := by
    rcases he with he | he
    · exact (lastEntity_spec he).2
    · exact (lastEntity_spec he).2
  exact ⟨hkind.trans hspec.1, hkey.trans hspec.2⟩

/-- The changes under a key. -/
theorem mem_changes_iff (hprev : CleanKinds prev) (hcurr : CleanKinds curr) {kind key : Bytes}
    {c : EntityChange ν} : (c ∈ compareEntities prev curr ∧ c.kind = kind ∧ c.key = key) ↔
      c ∈ entityChanges (lastEntity prev kind key) (lastEntity curr kind key) := by
  rw [mem_compareEntities hprev hcurr]
  constructor
  · rintro ⟨h, rfl, rfl⟩
    exact h
  · intro h
    obtain ⟨rfl, rfl⟩ := changes_key h
    exact ⟨h, rfl, rfl⟩

/-- **There is no change exactly when the maps agree.** -/
theorem compareEntities_eq_nil (hprev : CleanKinds prev) (hcurr : CleanKinds curr) :
    compareEntities prev curr = [] ↔ SameMaps (lastEntity prev) (lastEntity curr) := by
  rw [List.eq_nil_iff_forall_not_mem]
  constructor
  · intro h kind key
    rw [← entityChanges_eq_nil lastEntity_keys, List.eq_nil_iff_forall_not_mem]
    exact fun c hc => h c ((mem_changes_iff hprev hcurr).2 hc).1
  · intro h c hc
    have hnil := (entityChanges_eq_nil lastEntity_keys).2 (h c.kind c.key)
    have hmem := (mem_compareEntities hprev hcurr).1 hc
    rw [hnil] at hmem
    exact List.not_mem_nil hmem

/-! ### Applying changes -/

omit [DecidableEq ν] in
/-- The entity with another value in a field; `none` removes an attribute. -/
def setField (e : SnapshotEntity ν) (field : Bytes) (v : Option (Option (FieldValue ν))) :
    SnapshotEntity ν :=
  match stripPrefix (bytes "attributes.") field, v with
  | some attr, none => { e with attributes := e.attributes.erase attr }
  | some attr, some none => { e with attributes := e.attributes.set attr none }
  | some attr, some (some (.value x)) => { e with attributes := e.attributes.set attr (some x) }
  | none, some (some (.text s)) =>
      if field = bytes "name" then { e with name := s }
      else if field = bytes "ip" then { e with ip := s }
      else if field = bytes "hostname" then { e with hostname := s }
      else if field = bytes "mac" then { e with mac := s }
      else e
  | none, some (some (.names l)) => if field = bytes "aliases" then { e with aliases := l } else e
  | _, _ => e

omit [DecidableEq ν] in
/-- A change under a key applied to what is there. -/
def applyAt (m : Option (SnapshotEntity ν)) (c : EntityChange ν) : Option (SnapshotEntity ν) :=
  if c.field = bytes "entity" then
    match c.change, c.new with
    | .added, some (.entity e) => some e
    | _, _ => none
  else m.map fun e => setField e c.field (if c.change = .removed then none else some c.new)

omit [DecidableEq ν] in
/-- **A change applied to a keyed map.** -/
def applyChange (m : Bytes → Bytes → Option (SnapshotEntity ν)) (c : EntityChange ν) :
    Bytes → Bytes → Option (SnapshotEntity ν) := fun kind key =>
  if kind = c.kind ∧ key = c.key then applyAt (m kind key) c else m kind key

omit [DecidableEq ν] in
/-- **The fields after one was set** to what another entity has there. -/
theorem fieldValue_setField (e e' : SnapshotEntity ν) {field : Bytes} (hfield : IsField field)
    (g : Bytes) : fieldValue (setField e field (fieldValue e' field)) g =
      if g = field then fieldValue e' field else fieldValue e g := by
  cases hfield with
  | attr attr =>
      have hattrs : setField e (attributeField attr) (fieldValue e' (attributeField attr)) =
          { e with attributes := match e'.attributes.get attr with
              | none => e.attributes.erase attr
              | some v => e.attributes.set attr v } := by
        unfold setField
        rw [stripPrefix_attributeField, fieldValue_attribute]
        match e'.attributes.get attr with
        | none => rfl
        | some none => rfl
        | some (some _) => rfl
      rw [hattrs, fieldValue_attribute]
      by_cases hg : g = attributeField attr
      · subst hg
        rw [if_pos rfl, fieldValue_attribute]
        cases e'.attributes.get attr with
        | none => simp
        | some v => simp
      · rw [if_neg hg]
        unfold fieldValue
        split
        · next attr' hattr' =>
            have hne : attr' ≠ attr := by
              rintro rfl
              exact hg (stripPrefix_eq_some.1 hattr')
            cases e'.attributes.get attr with
            | none => simp [hne]
            | some v => simp [hne]
        · rfl
  | name =>
      have hset : setField e (bytes "name") (fieldValue e' (bytes "name")) =
          { e with name := e'.name } := rfl
      rw [hset]
      split
      · next hg => rw [hg, fieldValue_name, fieldValue_name]
      · next hg => simp only [fieldValue, if_neg hg]
  | ip =>
      have hset : setField e (bytes "ip") (fieldValue e' (bytes "ip")) =
          { e with ip := e'.ip } := rfl
      rw [hset]
      split
      · next hg => rw [hg, fieldValue_ip, fieldValue_ip]
      · next hg => simp only [fieldValue, if_neg hg]
  | hostname =>
      have hset : setField e (bytes "hostname") (fieldValue e' (bytes "hostname")) =
          { e with hostname := e'.hostname } := rfl
      rw [hset]
      split
      · next hg => rw [hg, fieldValue_hostname, fieldValue_hostname]
      · next hg => simp only [fieldValue, if_neg hg]
  | mac =>
      have hset : setField e (bytes "mac") (fieldValue e' (bytes "mac")) =
          { e with mac := e'.mac } := rfl
      rw [hset]
      split
      · next hg => rw [hg, fieldValue_mac, fieldValue_mac]
      · next hg => simp only [fieldValue, if_neg hg]
  | aliases =>
      have hset : setField e (bytes "aliases") (fieldValue e' (bytes "aliases")) =
          { e with aliases := e'.aliases } := rfl
      rw [hset]
      split
      · next hg => rw [hg, fieldValue_aliases, fieldValue_aliases]
      · next hg => simp only [fieldValue, if_neg hg]

omit [DecidableEq ν] in
theorem setField_key (e e' : SnapshotEntity ν) {field : Bytes} (hfield : IsField field) :
    (setField e field (fieldValue e' field)).kind = e.kind ∧
      (setField e field (fieldValue e' field)).externalID = e.externalID := by
  cases hfield with
  | attr attr =>
      unfold setField
      rw [stripPrefix_attributeField, fieldValue_attribute]
      match e'.attributes.get attr with
      | none => exact ⟨rfl, rfl⟩
      | some none => exact ⟨rfl, rfl⟩
      | some (some _) => exact ⟨rfl, rfl⟩
  | name => exact ⟨rfl, rfl⟩
  | ip => exact ⟨rfl, rfl⟩
  | hostname => exact ⟨rfl, rfl⟩
  | mac => exact ⟨rfl, rfl⟩
  | aliases => exact ⟨rfl, rfl⟩

/-- A change of a field sets it to what the newer entity has there. -/
theorem applyAt_fieldChange {old newer : SnapshotEntity ν} {c : EntityChange ν}
    (h : c ∈ fieldChanges old newer) (e : SnapshotEntity ν) : IsField c.field ∧
      applyAt (some e) c = some (setField e c.field (fieldValue newer c.field)) := by
  obtain ⟨field, hne, rfl⟩ := mem_fieldChanges.1 h
  have hfield := IsField.of_not_same hne
  refine ⟨hfield, ?_⟩
  have hentity : field ≠ bytes "entity" := by
    rintro rfl
    exact hne (Or.inl rfl)
  have hvalue : (if (changeOf newer field (fieldValue old field) (fieldValue newer field)).change =
      .removed then none else some (fieldValue newer field).join) = fieldValue newer field := by
    cases hold : fieldValue old field with
    | none =>
        cases hnew : fieldValue newer field with
        | none => exact (hne (Or.inl (by rw [hold, hnew]))).elim
        | some v => simp [changeOf]
    | some v =>
        cases hnew : fieldValue newer field with
        | none => simp [changeOf]
        | some w => simp [changeOf]
  rw [applyAt, if_neg (show (changeOf newer field _ _).field ≠ bytes "entity" from hentity),
    Option.map_some]
  exact congrArg (fun v => some (setField e field v)) hvalue

/-- **What some changes of an entity leave**: the changed fields are those of the newer one. -/
theorem foldl_applyAt_fieldChanges {old newer : SnapshotEntity ν} (cs : List (EntityChange ν))
    (h : ∀ c ∈ cs, c ∈ fieldChanges old newer) (e : SnapshotEntity ν) :
    ∃ r, cs.foldl applyAt (some e) = some r ∧ r.kind = e.kind ∧ r.externalID = e.externalID ∧
      ∀ g, fieldValue r g =
        if g ∈ cs.map EntityChange.field then fieldValue newer g else fieldValue e g := by
  induction cs generalizing e with
  | nil => exact ⟨e, rfl, rfl, rfl, fun g => (if_neg List.not_mem_nil).symm⟩
  | cons c cs ih =>
      obtain ⟨hfield, happly⟩ := applyAt_fieldChange (h c List.mem_cons_self) e
      obtain ⟨r, hr, hkind, hid, hvalues⟩ :=
        ih (fun d hd => h d (List.mem_cons_of_mem _ hd)) (setField e c.field (fieldValue newer c.field))
      obtain ⟨hkind', hid'⟩ := setField_key e newer hfield
      refine ⟨r, by rw [List.foldl_cons, happly, hr], hkind.trans hkind', hid.trans hid', ?_⟩
      intro g
      rw [hvalues, fieldValue_setField e newer hfield, List.map_cons]
      by_cases hg : g = c.field
      · subst hg
        simp
      · simp [hg]

omit [DecidableEq ν] in
/-- Changes under other keys leave what is under a key. -/
theorem foldl_applyChange_at (cs : List (EntityChange ν))
    (m : Bytes → Bytes → Option (SnapshotEntity ν)) (kind key : Bytes) :
    cs.foldl applyChange m kind key =
      (cs.filter fun c => kind = c.kind ∧ key = c.key).foldl applyAt (m kind key) := by
  induction cs generalizing m with
  | nil => rfl
  | cons c cs ih =>
      rw [List.foldl_cons, ih, applyChange]
      by_cases h : kind = c.kind ∧ key = c.key
      · rw [if_pos h, List.filter_cons_of_pos (by simpa using h), List.foldl_cons]
      · rw [if_neg h, List.filter_cons_of_neg (by simpa using h)]

omit [DecidableEq ν] in
/-- One change repeated leaves what it leaves once. -/
theorem foldl_applyAt_const {cs : List (EntityChange ν)} {c : EntityChange ν} (hmem : c ∈ cs)
    (hall : ∀ d ∈ cs, d = c) {r : Option (SnapshotEntity ν)} (hc : ∀ m, applyAt m c = r)
    (m : Option (SnapshotEntity ν)) : cs.foldl applyAt m = r := by
  cases cs with
  | nil => exact absurd hmem List.not_mem_nil
  | cons d cs =>
      have hd := hall d List.mem_cons_self
      subst hd
      rw [List.foldl_cons, hc]
      clear hmem
      induction cs with
      | nil => rfl
      | cons d' cs ih =>
          have hd' := hall d' (List.mem_cons_of_mem _ List.mem_cons_self)
          subst hd'
          rw [List.foldl_cons, hc]
          exact ih fun x hx => hall x (by
            rcases List.mem_cons.1 hx with rfl | hx
            · exact List.mem_cons_self
            · exact List.mem_cons_of_mem _ (List.mem_cons_of_mem _ hx))

/-- **Applying the changes to the old map gives the new one.** -/
theorem foldl_applyChange (hprev : CleanKinds prev) (hcurr : CleanKinds curr) :
    SameMaps ((compareEntities prev curr).foldl applyChange (lastEntity prev)) (lastEntity curr) := by
  intro kind key
  rw [foldl_applyChange_at]
  generalize hcs : ((compareEntities prev curr).filter fun c => kind = c.kind ∧ key = c.key) = cs
  have hmem : ∀ c, c ∈ cs ↔
      c ∈ entityChanges (lastEntity prev kind key) (lastEntity curr kind key) := by
    intro c
    rw [← mem_changes_iff hprev hcurr, ← hcs, List.mem_filter, decide_eq_true_eq, eq_comm,
      @eq_comm _ key]
  have hkeys := @lastEntity_keys _ prev curr kind key
  revert hmem hkeys
  match lastEntity prev kind key, lastEntity curr kind key with
  | none, none =>
      intro hmem _
      obtain rfl := List.eq_nil_iff_forall_not_mem.2 fun c hc => List.not_mem_nil ((hmem c).1 hc)
      exact .none
  | none, some newer =>
      intro hmem _
      rw [foldl_applyAt_const ((hmem _).2 List.mem_cons_self)
        (fun d hd => List.mem_singleton.1 ((hmem d).1 hd)) (r := some newer) fun _ => rfl]
      exact .some (sameEntity_iff.2 ⟨rfl, rfl, fun _ => Or.inl rfl⟩)
  | some old, none =>
      intro hmem _
      rw [foldl_applyAt_const ((hmem _).2 List.mem_cons_self)
        (fun d hd => List.mem_singleton.1 ((hmem d).1 hd)) (r := none) fun _ => rfl]
      exact .none
  | some old, some newer =>
      intro hmem hkeys
      obtain ⟨hkind, hkey⟩ := hkeys old newer rfl rfl
      obtain ⟨r, hr, hrkind, hrid, hvalues⟩ :=
        foldl_applyAt_fieldChanges cs (fun c hc => (hmem c).1 hc) old
      rw [hr]
      refine .some (sameEntity_iff.2 ⟨hrkind.trans hkind, hrid.trans (externalID_eq_of_key hkey), ?_⟩)
      intro g
      rw [hvalues]
      split
      · exact Or.inl rfl
      · next hg =>
          by_contra hne
          have hc := (hmem _).2 (mem_fieldChanges.2 ⟨g, hne, rfl⟩)
          exact hg (List.mem_map.2 ⟨_, hc, rfl⟩)

/-! ### The other way round -/

def ChangeType.exchanged : ChangeType → ChangeType
  | .added => .removed
  | .removed => .added
  | .modified => .modified

omit [DecidableEq ν] in
/-- The change with old and new exchanged. -/
def EntityChange.turned (c : EntityChange ν) : EntityChange ν :=
  { c with change := c.change.exchanged, old := c.new, new := c.old }

omit [DecidableEq ν] in
/-- The change the other way round, from an entity to `a`: also the name is that of `a`. -/
def exchangedAt (a : Option (SnapshotEntity ν)) (c : EntityChange ν) : EntityChange ν :=
  { c.turned with name := (a.map SnapshotEntity.name).getD c.name }

omit [DecidableEq ν] in
/-- **The change the other way round**, between lists of which the older one is given. -/
def exchanged (prev : List (SnapshotEntity ν)) (c : EntityChange ν) : EntityChange ν :=
  exchangedAt (lastEntity prev c.kind c.key) c

omit [DecidableEq ν] in
theorem exchangedAt_changeOf {old newer : SnapshotEntity ν} (hkind : old.kind = newer.kind)
    (hkey : entityKey old = entityKey newer) (field : Bytes) {a b : Option (Option (FieldValue ν))}
    (hne : ¬ FieldSame a b) :
    exchangedAt (some old) (changeOf newer field a b) = changeOf old field b a := by
  have hchange : (changeOf newer field a b).change.exchanged = (changeOf old field b a).change := by
    match a, b with
    | none, none => exact (hne (Or.inl rfl)).elim
    | none, some _ => rfl
    | some _, none => rfl
    | some _, some _ => rfl
  unfold exchangedAt EntityChange.turned
  rw [hchange]
  simp only [changeOf, hkind, hkey, Option.map_some, Option.getD_some]

/-- The changes the other way round are changes. -/
theorem exchangedAt_mem {a b : Option (SnapshotEntity ν)}
    (hkeys : ∀ e e', a = some e → b = some e' → e.kind = e'.kind ∧ entityKey e = entityKey e')
    {c : EntityChange ν} (h : c ∈ entityChanges a b) :
    exchangedAt a c ∈ entityChanges b a ∧ exchangedAt b (exchangedAt a c) = c := by
  match a, b with
  | none, none => exact absurd h List.not_mem_nil
  | none, some e =>
      obtain rfl := List.mem_singleton.1 h
      exact ⟨List.mem_cons_self, rfl⟩
  | some e, none =>
      obtain rfl := List.mem_singleton.1 h
      exact ⟨List.mem_cons_self, rfl⟩
  | some old, some newer =>
      obtain ⟨hkind, hkey⟩ := hkeys old newer rfl rfl
      obtain ⟨field, hne, rfl⟩ := mem_fieldChanges.1 h
      have hne' : ¬ FieldSame (fieldValue newer field) (fieldValue old field) :=
        fun hs => hne hs.symm
      rw [exchangedAt_changeOf hkind hkey field hne]
      exact ⟨mem_fieldChanges.2 ⟨field, hne', rfl⟩,
        exchangedAt_changeOf hkind.symm hkey.symm field hne'⟩

/-- **Comparing the other way round** exchanges old and new, and the names. -/
theorem compareEntities_exchange (hprev : CleanKinds prev) (hcurr : CleanKinds curr) :
    compareEntities curr prev = (compareEntities prev curr).map (exchanged prev) := by
  have hsorted := compareEntities_sorted curr prev
  have hsorted' : ((compareEntities prev curr).map (exchanged prev)).Pairwise
      fun a b => changeLess a b = true :=
    List.pairwise_map.2 (compareEntities_sorted prev curr)
  have hnodup : ∀ {cs : List (EntityChange ν)},
      (cs.Pairwise fun a b => changeLess a b = true) → cs.Nodup := by
    intro cs h
    refine h.imp ?_
    rintro a b hab rfl
    exact Std.lt_irrefl ((changeLess_iff a a).1 hab)
  have hperm : (compareEntities curr prev).Perm ((compareEntities prev curr).map (exchanged prev)) := by
    refine (List.perm_ext_iff_of_nodup (hnodup hsorted) (hnodup hsorted')).2 ?_
    intro c
    rw [List.mem_map]
    constructor
    · intro hc
      obtain ⟨hmem, hback⟩ := exchangedAt_mem lastEntity_keys
        ((mem_compareEntities hcurr hprev).1 hc)
      exact ⟨_, (mem_compareEntities hprev hcurr).2 hmem, hback⟩
    · rintro ⟨d, hd, rfl⟩
      obtain ⟨hmem, -⟩ := exchangedAt_mem lastEntity_keys ((mem_compareEntities hprev hcurr).1 hd)
      exact (mem_compareEntities hcurr hprev).2 hmem
  refine hperm.eq_of_pairwise ?_ hsorted hsorted'
  intro a b _ _ hab hba
  have hlt := (changeLess_iff a b).1 hab
  have hgt := (changeLess_iff b a).1 hba
  exact (Std.lt_irrefl (Std.lt_trans hlt hgt)).elim

/-! ### The counters -/

/-- The keys that a counter is about: those that one of the lists has, or both with different
entities. -/
def countedKeys (prev curr : List (SnapshotEntity ν)) : ChangeType → Set (Bytes × Bytes)
  | .added => {p | lastEntity prev p.1 p.2 = none ∧ lastEntity curr p.1 p.2 ≠ none}
  | .removed => {p | lastEntity prev p.1 p.2 ≠ none ∧ lastEntity curr p.1 p.2 = none}
  | .modified => {p | lastEntity prev p.1 p.2 ≠ none ∧ lastEntity curr p.1 p.2 ≠ none ∧
      ¬ Option.Rel SameEntity (lastEntity prev p.1 p.2) (lastEntity curr p.1 p.2)}

theorem counted_fieldChange {old newer : SnapshotEntity ν} {c : EntityChange ν}
    (h : c ∈ fieldChanges old newer) : c.counted = .modified := by
  obtain ⟨field, hne, rfl⟩ := mem_fieldChanges.1 h
  refine if_pos ?_
  rintro hfield
  have hfield : field = bytes "entity" := hfield
  subst hfield
  exact hne (Or.inl rfl)

/-- A key is counted when there is such a change under it. -/
theorem mem_countedKeys {t : ChangeType} {p : Bytes × Bytes} : p ∈ countedKeys prev curr t ↔
    ∃ c ∈ entityChanges (lastEntity prev p.1 p.2) (lastEntity curr p.1 p.2), c.counted = t := by
  have hkeys := @lastEntity_keys _ prev curr p.1 p.2
  have hset : p ∈ countedKeys prev curr t ↔ match t with
      | .added => lastEntity prev p.1 p.2 = none ∧ lastEntity curr p.1 p.2 ≠ none
      | .removed => lastEntity prev p.1 p.2 ≠ none ∧ lastEntity curr p.1 p.2 = none
      | .modified => lastEntity prev p.1 p.2 ≠ none ∧ lastEntity curr p.1 p.2 ≠ none ∧
          ¬ Option.Rel SameEntity (lastEntity prev p.1 p.2) (lastEntity curr p.1 p.2) := by
    cases t <;> rfl
  rw [hset]
  clear hset
  revert hkeys
  match lastEntity prev p.1 p.2, lastEntity curr p.1 p.2 with
  | none, none =>
      intro _
      cases t <;> simp [entityChanges]
  | none, some e =>
      intro _
      cases t <;> simp [entityChanges, EntityChange.counted]
  | some e, none =>
      intro _
      cases t <;> simp [entityChanges, EntityChange.counted]
  | some old, some newer =>
      intro hkeys
      have hall : ∀ c ∈ entityChanges (some old) (some newer), c.counted = .modified :=
        fun c hc => counted_fieldChange hc
      have hnil := entityChanges_eq_nil hkeys
      cases t with
      | added =>
          refine ⟨fun h => by simp at h, ?_⟩
          rintro ⟨c, hc, hcount⟩
          rw [hall c hc] at hcount
          cases hcount
      | removed =>
          refine ⟨fun h => by simp at h, ?_⟩
          rintro ⟨c, hc, hcount⟩
          rw [hall c hc] at hcount
          cases hcount
      | modified =>
          constructor
          · rintro ⟨-, -, hne⟩
            obtain ⟨c, hc⟩ := List.exists_mem_of_ne_nil _ fun h => hne (hnil.1 h)
            exact ⟨c, hc, hall c hc⟩
          · rintro ⟨c, hc, -⟩
            refine ⟨by simp, by simp, fun hsame => ?_⟩
            rw [hnil.2 hsame] at hc
            exact List.not_mem_nil hc

/-- **The counters** are the numbers of these keys. -/
theorem entityCounts_length (hprev : CleanKinds prev) (hcurr : CleanKinds curr) (t : ChangeType) :
    (entityCounts (compareEntities prev curr) t).length = (countedKeys prev curr t).ncard := by
  let cs := (compareEntities prev curr).filter fun c => c.counted = t
  let pairs := (cs.map fun c => (c.kind, c.key)).toFinset
  have hset : (pairs : Set (Bytes × Bytes)) = countedKeys prev curr t := by
    ext p
    rw [mem_countedKeys, Finset.mem_coe, List.mem_toFinset, List.mem_map]
    constructor
    · rintro ⟨c, hc, rfl⟩
      obtain ⟨hmem, hcount⟩ := List.mem_filter.1 hc
      exact ⟨c, (mem_changes_iff hprev hcurr).1 ⟨hmem, rfl, rfl⟩, by simpa using hcount⟩
    · rintro ⟨c, hc, hcount⟩
      obtain ⟨hmem, hkind, hkey⟩ := (mem_changes_iff hprev hcurr).2 hc
      exact ⟨c, List.mem_filter.2 ⟨hmem, by simpa using hcount⟩, Prod.ext hkind hkey⟩
  have hclean : ∀ c ∈ compareEntities prev curr, 0 ∉ c.kind := by
    intro c hc
    obtain ⟨e, he, hkind, -⟩ := key_of_mem_entityChanges ((mem_compareEntities hprev hcurr).1 hc)
    rw [hkind]
    rcases he with he | he
    · exact hprev e (lastEntity_spec he).1
    · exact hcurr e (lastEntity_spec he).1
  have hinj : Set.InjOn (fun p : Bytes × Bytes => p.1 ++ 0 :: p.2) pairs := by
    have hzero : ∀ p ∈ (pairs : Set (Bytes × Bytes)), 0 ∉ p.1 := by
      intro p hp
      obtain ⟨c, hc, rfl⟩ := List.mem_map.1 (List.mem_toFinset.1 hp)
      exact hclean c (List.mem_of_mem_filter hc)
    intro p hp q hq hpq
    obtain ⟨h1, h2⟩ := append_cons_inj (hzero p hp) (hzero q hq) hpq
    exact Prod.ext h1 h2
  have hkeys : (cs.map fun c => c.kind ++ 0 :: c.key).toFinset =
      pairs.image fun p => p.1 ++ 0 :: p.2 := by
    ext k
    simp [pairs]
  calc (entityCounts (compareEntities prev curr) t).length
      = (cs.map fun c => c.kind ++ 0 :: c.key).toFinset.card := (List.card_toFinset _).symm
    _ = pairs.card := by rw [hkeys, Finset.card_image_of_injOn hinj]
    _ = (countedKeys prev curr t).ncard := by rw [← hset, Set.ncard_coe_finset]

/-! ### What the changes tell -/

/-- **What the changes tell**: there is none exactly when the keyed maps agree, they lead from the old
map to the new one, each kind, key and field is listed once, in order, the comparison the other way
round exchanges old and new, and the counters are the numbers of keys that were added, removed or
modified. -/
theorem compareEntities_exact (prev curr : ServiceSnapshot (List (SnapshotEntity ν)))
    (hprev : CleanKinds prev.inventory) (hcurr : CleanKinds curr.inventory) :
    (compareEntities prev.inventory curr.inventory = [] ↔
      SameMaps (lastEntity prev.inventory) (lastEntity curr.inventory)) ∧
    SameMaps ((compareEntities prev.inventory curr.inventory).foldl applyChange
      (lastEntity prev.inventory)) (lastEntity curr.inventory) ∧
    ((compareEntities prev.inventory curr.inventory).Pairwise fun a b => changeLess a b = true) ∧
    compareEntities curr.inventory prev.inventory =
      (compareEntities prev.inventory curr.inventory).map (exchanged prev.inventory) ∧
    (buildSnapshotDiff prev curr).summary.entitiesAdded =
      (countedKeys prev.inventory curr.inventory .added).ncard ∧
    (buildSnapshotDiff prev curr).summary.entitiesRemoved =
      (countedKeys prev.inventory curr.inventory .removed).ncard ∧
    (buildSnapshotDiff prev curr).summary.entitiesModified =
      (countedKeys prev.inventory curr.inventory .modified).ncard :=
  ⟨compareEntities_eq_nil hprev hcurr, foldl_applyChange hprev hcurr, compareEntities_sorted _ _,
    compareEntities_exchange hprev hcurr, entityCounts_length hprev hcurr .added,
    entityCounts_length hprev hcurr .removed, entityCounts_length hprev hcurr .modified⟩

/-- A virtual machine that is told by its external id. -/
def vmNamed (kind name externalID : Bytes) : SnapshotEntity Bytes where
  kind := kind
  name := name
  ip := bytes "10.0.0.1"
  hostname := []
  mac := []
  aliases := []
  externalID := externalID
  attributes := ⟨[(bytes "enabled", some (bytes "true"))], by decide⟩

def snapshotOf (entities : List (SnapshotEntity Bytes)) :
    ServiceSnapshot (List (SnapshotEntity Bytes)) :=
  ⟨bytes "pve", bytes "proxmox", [], [], entities⟩

theorem compareEntities_exact_renamed :
    CleanKinds [vmNamed (bytes "vm") (bytes "a") (bytes "7")] ∧
    (buildSnapshotDiff (snapshotOf [vmNamed (bytes "vm") (bytes "a") (bytes "7")])
      (snapshotOf [vmNamed (bytes "vm") (bytes "b") (bytes "7")])).summary.entitiesModified =
        (countedKeys [vmNamed (bytes "vm") (bytes "a") (bytes "7")]
          [vmNamed (bytes "vm") (bytes "b") (bytes "7")] .modified).ncard ∧
    (buildSnapshotDiff (snapshotOf [vmNamed (bytes "vm") (bytes "a") (bytes "7")])
      (snapshotOf [vmNamed (bytes "vm") (bytes "b") (bytes "7")])).summary.entitiesModified = 1 :=
  ⟨by decide,
    (compareEntities_exact (snapshotOf [vmNamed (bytes "vm") (bytes "a") (bytes "7")])
      (snapshotOf [vmNamed (bytes "vm") (bytes "b") (bytes "7")]) (by decide)
      (by decide)).2.2.2.2.2.2,
    by decide⟩

/-- **The name is not exchanged**: a renamed machine is told under its current name, whichever way
round.  And a kind with a NUL byte may be mistaken for another kind and key. -/
theorem renamed_not_turned :
    compareEntities [vmNamed (bytes "vm") (bytes "b") (bytes "7")]
        [vmNamed (bytes "vm") (bytes "a") (bytes "7")] ≠
      (compareEntities [vmNamed (bytes "vm") (bytes "a") (bytes "7")]
        [vmNamed (bytes "vm") (bytes "b") (bytes "7")]).map EntityChange.turned ∧
    compareEntities [vmNamed (bytes "a") (bytes "c") (bytes "b" ++ 0 :: bytes "name:c")]
      [vmNamed (bytes "a" ++ 0 :: bytes "externalId:b") (bytes "c") []] = [] ∧
    ¬ SameMaps (lastEntity [vmNamed (bytes "a") (bytes "c") (bytes "b" ++ 0 :: bytes "name:c")])
      (lastEntity [vmNamed (bytes "a" ++ 0 :: bytes "externalId:b") (bytes "c") []]) := by
  refine ⟨by decide, by decide, ?_⟩
  intro h
  have hkey := h (bytes "a") (bytes "externalId:" ++ (bytes "b" ++ 0 :: bytes "name:c"))
  have hold : lastEntity [vmNamed (bytes "a") (bytes "c") (bytes "b" ++ 0 :: bytes "name:c")]
      (bytes "a") (bytes "externalId:" ++ (bytes "b" ++ 0 :: bytes "name:c")) =
        some (vmNamed (bytes "a") (bytes "c") (bytes "b" ++ 0 :: bytes "name:c")) := by decide
  have hnew : lastEntity [vmNamed (bytes "a" ++ 0 :: bytes "externalId:b") (bytes "c") []]
      (bytes "a") (bytes "externalId:" ++ (bytes "b" ++ 0 :: bytes "name:c")) = none := by
    decide
  rw [hold, hnew] at hkey
  cases hkey

end WiseLabz.Sync
