/-
**What the run of a recipe keeps.**

A run asks for a bounded number of pages and never sends a cursor or follows a link twice, whatever
the server answers.  What it has taken is the fold of the pages it accepted, within the limits on
entities and on bytes and without a duplicate.  A preview charges at least as many bytes as a fetch,
so a fetch does what a preview without errors has told.

Main results:

* `Recipe.mapEndpointBudgeted_ok` — what a mapped page is;
* `Recipe.acceptPage_whole` — **a page is taken as a whole or not at all**;
* `Recipe.runRecipeEndpoint_requests` — **the requests of an endpoint**;
* `Recipe.runRecipe_sound` — **what every run keeps**;
* `Recipe.fetch_of_preview` — **a preview without errors tells what a fetch does**.
-/

import WiseLabz.Recipe.Fetch

set_option relaxedAutoImplicit false
set_option autoImplicit false

namespace WiseLabz.Recipe

open Lib

/-! ### What a page maps to -/

section Mapping

variable {fmt : Formats} {json : JsonPackage}

theorem budgetAdd_eq_ok {endpoint : Bytes} {limit used n used' : ℕ} :
    budgetAdd fmt endpoint limit used n = .ok used' ↔ used + n ≤ limit ∧ used' = used + n := by
  rw [budgetAdd, ite_error_eq_ok, Except.ok.injEq, not_lt, eq_comm (a := used + n)]

/-- The attributes that are mapped, and their bytes. -/
theorem mapAttributes_ok {endpoint item : Bytes} {limit used used' : ℕ}
    {attributes : List (Bytes × RecipeAttribute)} {values : List (Bytes × RecipeValue)}
    (h : mapAttributes fmt json endpoint item limit used attributes = .ok (used', values)) :
    used' = used + attributesSize values ∧ (used ≤ limit → used' ≤ limit) := by
  induction attributes generalizing used used' values with
  | nil =>
      obtain ⟨rfl, rfl⟩ := Prod.mk.inj (Except.ok.inj h)
      exact ⟨rfl, id⟩
  | cons a attributes ih =>
      rw [mapAttributes] at h
      obtain ⟨value, -, h⟩ := bind_eq_ok.1 h
      cases value with
      | none => exact ih h
      | some value =>
          obtain ⟨used₁, hadd, h⟩ := bind_eq_ok.1 h
          obtain ⟨⟨used₂, rest⟩, hrest, h⟩ := bind_eq_ok.1 h
          obtain ⟨rfl, rfl⟩ := Prod.mk.inj (Except.ok.inj h)
          obtain ⟨hle, rfl⟩ := budgetAdd_eq_ok.1 hadd
          obtain ⟨rfl, hlimit⟩ := ih hrest
          refine ⟨?_, fun _ => hlimit hle⟩
          simp [attributesSize, Nat.add_assoc]

/-- With more bytes left the same attributes are mapped. -/
theorem mapAttributes_mono {endpoint item : Bytes} {limit used used' less : ℕ}
    {attributes : List (Bytes × RecipeAttribute)} {values : List (Bytes × RecipeValue)}
    (h : mapAttributes fmt json endpoint item limit used attributes = .ok (used', values))
    (hless : less ≤ used) :
    mapAttributes fmt json endpoint item limit less attributes =
      .ok (less + attributesSize values, values) := by
  induction attributes generalizing used used' less values with
  | nil =>
      obtain ⟨rfl, rfl⟩ := Prod.mk.inj (Except.ok.inj h)
      rfl
  | cons a attributes ih =>
      rw [mapAttributes] at h
      obtain ⟨value, hvalue, h⟩ := bind_eq_ok.1 h
      rw [mapAttributes]
      refine bind_eq_ok.2 ⟨_, hvalue, ?_⟩
      cases value with
      | none => exact ih h hless
      | some value =>
          obtain ⟨used₁, hadd, h⟩ := bind_eq_ok.1 h
          obtain ⟨⟨used₂, rest⟩, hrest, h⟩ := bind_eq_ok.1 h
          obtain ⟨rfl, rfl⟩ := Prod.mk.inj (Except.ok.inj h)
          obtain ⟨hle, rfl⟩ := budgetAdd_eq_ok.1 hadd
          refine bind_eq_ok.2 ⟨_, budgetAdd_eq_ok.2 ⟨by omega, rfl⟩, bind_eq_ok.2
            ⟨_, ih hrest (Nat.add_le_add_right hless _), ?_⟩⟩
          simp [attributesSize, Nat.add_assoc]

/-- The entity of an item, and its bytes. -/
theorem mapRecipeEntity_ok {endpoint : RecipeEndpoint RecipeAttribute} {item : Bytes}
    {limit used used' : ℕ} {entity : Option MappedEntity}
    (h : mapRecipeEntity fmt json endpoint item limit used = .ok (used', entity)) :
    used' = used + (entity.map MappedEntity.size).getD 0 ∧ (used ≤ limit → used' ≤ limit) ∧
      ∀ less ≤ used, mapRecipeEntity fmt json endpoint item limit less =
        .ok (less + (entity.map MappedEntity.size).getD 0, entity) := by
  rw [mapRecipeEntity] at h
  obtain ⟨externalID, hid, h⟩ := bind_eq_ok.1 h
  cases externalID with
  | none =>
      obtain ⟨rfl, rfl⟩ := Prod.mk.inj (Except.ok.inj h)
      refine ⟨rfl, id, fun less _ => ?_⟩
      rw [mapRecipeEntity, hid]
      rfl
  | some externalID =>
      simp only at h
      by_cases htrim : trimSpace externalID = []
      · rw [if_pos htrim] at h
        obtain ⟨rfl, rfl⟩ := Prod.mk.inj (Except.ok.inj h)
        refine ⟨rfl, id, fun less _ => ?_⟩
        rw [mapRecipeEntity, hid]
        exact if_pos htrim
      · rw [if_neg htrim] at h
        obtain ⟨name, hname, h⟩ := bind_eq_ok.1 h
        obtain ⟨ip, hip, h⟩ := bind_eq_ok.1 h
        obtain ⟨hostname, hhostname, h⟩ := bind_eq_ok.1 h
        obtain ⟨mac, hmac, h⟩ := bind_eq_ok.1 h
        obtain ⟨aliases, haliases, h⟩ := bind_eq_ok.1 h
        obtain ⟨used₁, hadd, h⟩ := bind_eq_ok.1 h
        obtain ⟨⟨used₂, attributes⟩, hattributes, h⟩ := bind_eq_ok.1 h
        obtain ⟨rfl, rfl⟩ := Prod.mk.inj (Except.ok.inj h)
        obtain ⟨hle, rfl⟩ := budgetAdd_eq_ok.1 hadd
        obtain ⟨rfl, hlimit⟩ := mapAttributes_ok hattributes
        refine ⟨Nat.add_assoc .., fun _ => hlimit hle, fun less hless => ?_⟩
        rw [mapRecipeEntity, hid]
        refine (if_neg htrim).trans ?_
        refine bind_eq_ok.2 ⟨_, hname, bind_eq_ok.2 ⟨_, hip, bind_eq_ok.2 ⟨_, hhostname,
          bind_eq_ok.2 ⟨_, hmac, bind_eq_ok.2 ⟨_, haliases, bind_eq_ok.2
            ⟨_, budgetAdd_eq_ok.2 ⟨by omega, rfl⟩, bind_eq_ok.2
              ⟨_, mapAttributes_mono hattributes (Nat.add_le_add_right hless _), ?_⟩⟩⟩⟩⟩⟩⟩
        simp [MappedEntity.size, MappedEntity.fieldsSize, Nat.add_assoc]

/-- What the items of a page are mapped to. -/
structure ItemsOk (known : List Bytes) (items : List Bytes) (entities : List MappedEntity)
    (skipped : ℕ) : Prop where
  distinct : KeyNodup MappedEntity.key entities
  fresh : ∀ e ∈ entities, e.key ∉ known
  counted : entities.length + skipped = items.length

theorem mapItems_ok {endpoint : RecipeEndpoint RecipeAttribute} {limit used skipped : ℕ}
    {known items : List Bytes} {entities : List MappedEntity}
    (h : mapItems fmt json endpoint limit known used items = .ok (entities, skipped)) :
    ItemsOk known items entities skipped ∧
      (used ≤ limit → used + recipeEntitiesSize entities ≤ limit) ∧
        ∀ less ≤ used,
          mapItems fmt json endpoint limit known less items = .ok (entities, skipped) := by
  induction items generalizing known used entities skipped with
  | nil =>
      obtain ⟨rfl, rfl⟩ := Prod.mk.inj (Except.ok.inj h)
      exact ⟨⟨keyNodup_nil, by simp, rfl⟩, id, fun _ _ => rfl⟩
  | cons item items ih =>
      rw [mapItems] at h
      obtain ⟨⟨used₁, entity⟩, hentity, h⟩ := bind_eq_ok.1 h
      obtain ⟨rfl, hlimit, hmono⟩ := mapRecipeEntity_ok hentity
      cases entity with
      | none =>
          obtain ⟨⟨rest, skipped'⟩, hrest, h⟩ := bind_eq_ok.1 h
          obtain ⟨rfl, rfl⟩ := Prod.mk.inj (Except.ok.inj h)
          obtain ⟨hok, hsize, hrestMono⟩ := ih hrest
          refine ⟨⟨hok.distinct, hok.fresh, ?_⟩, hsize, fun less hless => ?_⟩
          · rw [List.length_cons, ← hok.counted, Nat.add_assoc]
          · rw [mapItems]
            exact bind_eq_ok.2 ⟨_, hmono less hless, bind_eq_ok.2 ⟨_, hrestMono less hless, rfl⟩⟩
      | some entity =>
          simp only [ite_error_eq_ok] at h
          obtain ⟨hnew, h⟩ := h
          obtain ⟨⟨rest, skipped'⟩, hrest, h⟩ := bind_eq_ok.1 h
          obtain ⟨rfl, rfl⟩ := Prod.mk.inj (Except.ok.inj h)
          obtain ⟨hok, hsize, hrestMono⟩ := ih hrest
          have hfresh : ∀ e ∈ rest, e.key ≠ entity.key ∧ e.key ∉ known := by
            intro e he
            exact not_or.1 fun hor => hok.fresh e he (List.mem_cons.2 hor)
          refine ⟨⟨?_, ?_, ?_⟩, fun hused => ?_, fun less hless => ?_⟩
          · refine List.nodup_cons.2 ⟨fun hmem => ?_, hok.distinct⟩
            obtain ⟨e, he, hkey⟩ := List.mem_map.1 hmem
            exact (hfresh e he).1 hkey
          · rintro e (_ | ⟨_, he⟩)
            · exact hnew
            · exact (hfresh e he).2
          · rw [List.length_cons, List.length_cons, ← hok.counted, Nat.add_right_comm]
          · have := hsize (hlimit hused)
            simpa [recipeEntitiesSize, Nat.add_assoc] using this
          · rw [mapItems]
            refine bind_eq_ok.2 ⟨_, hmono less hless, ite_error_eq_ok.2 ⟨hnew, bind_eq_ok.2
              ⟨_, hrestMono _ ?_, rfl⟩⟩⟩
            exact Nat.add_le_add_right hless _

theorem addAll_keyNodup {target : List ServiceDependency}
    (h : KeyNodup ServiceDependency.key target) (kind : Bytes) (names : List Bytes) :
    KeyNodup ServiceDependency.key
      (names.foldl (fun target name => addRecipeDependency target kind name) target) := by
  induction names generalizing target with
  | nil => exact h
  | cons name names ih => exact ih (h.put _)

theorem addRecipeDependencies_keyNodup {body name : Bytes} {i : ℕ}
    {target dependencies : List ServiceDependency} {definitions : List RecipeDependency}
    (h : addRecipeDependencies json.pathValue fmt body name i target definitions =
      .ok dependencies) (htarget : KeyNodup ServiceDependency.key target) :
    KeyNodup ServiceDependency.key dependencies := by
  induction definitions generalizing i target with
  | nil =>
      obtain rfl := Except.ok.inj h
      exact htarget
  | cons definition definitions ih =>
      rw [addRecipeDependencies] at h
      obtain ⟨names, -, h⟩ := bind_eq_ok.1 h
      exact ih h (addAll_keyNodup htarget definition.kind names)

/-- **What a page maps to**: entities that are new and distinct, within the limit, and dependencies
that are distinct. -/
structure PageOk (seen : List Bytes) (limit used : ℕ) (mapped : MappedPage) : Prop where
  distinct : KeyNodup MappedEntity.key mapped.entities
  fresh : ∀ e ∈ mapped.entities, e.key ∉ seen
  counted : mapped.entities.length + mapped.skipped = mapped.items
  size : used ≤ limit → used + recipeEntitiesSize mapped.entities ≤ limit
  dependencies : KeyNodup ServiceDependency.key mapped.dependencies

theorem mapEndpointBudgeted_ok {recipe : RecipeSpec RecipeAttribute}
    {endpoint : RecipeEndpoint RecipeAttribute} {body : Bytes} {seen : List Bytes} {limit used : ℕ}
    {mapped : MappedPage}
    (h : mapEndpointBudgeted fmt json recipe endpoint body seen limit used = .ok mapped) :
    PageOk seen limit used mapped ∧ (∀ less ≤ used,
      mapEndpointBudgeted fmt json recipe endpoint body seen limit less = .ok mapped) ∧
        ∃ items, json.items body endpoint.items = some items ∧ mapped.items = items.length := by
  rw [mapEndpointBudgeted, ite_error_eq_ok] at h
  obtain ⟨hvalid, h⟩ := h
  cases hitems : json.items body endpoint.items with
  | none =>
      rw [hitems] at h
      cases h
  | some items =>
      rw [hitems] at h
      obtain ⟨⟨entities, skipped⟩, hentities, h⟩ := bind_eq_ok.1 h
      obtain ⟨first, hfirst, h⟩ := bind_eq_ok.1 h
      obtain ⟨dependencies, hdependencies, h⟩ := bind_eq_ok.1 h
      obtain rfl := Except.ok.inj h
      obtain ⟨hok, hsize, hmono⟩ := mapItems_ok hentities
      have hnodup := addRecipeDependencies_keyNodup hdependencies
        (addRecipeDependencies_keyNodup hfirst keyNodup_nil)
      refine ⟨⟨hok.distinct, hok.fresh, hok.counted, hsize, ?_⟩, fun less hless => ?_, items, rfl,
        rfl⟩
      · exact ((List.mergeSort_perm _ _).map _).nodup_iff.2 hnodup
      · rw [mapEndpointBudgeted, if_neg hvalid, hitems]
        exact bind_eq_ok.2 ⟨_, hmono less hless, bind_eq_ok.2 ⟨_, hfirst, bind_eq_ok.2
          ⟨_, hdependencies, rfl⟩⟩⟩

end Mapping

/-! ### Taking a page -/

/-- The dependencies that are not known yet. -/
def newDependencies (seen : List Bytes) (ds : List ServiceDependency) : List ServiceDependency :=
  ds.filter fun d => d.key ∉ seen

def dependenciesSize (ds : List ServiceDependency) : ℕ := (ds.map ServiceDependency.size).sum

theorem newDependencies_cons_of_mem {seen : List Bytes} {d : ServiceDependency}
    {ds : List ServiceDependency} (h : d.key ∈ seen) :
    newDependencies seen (d :: ds) = newDependencies seen ds := by
  simp [newDependencies, h]

theorem newDependencies_cons_of_notMem {seen : List Bytes} {d : ServiceDependency}
    {ds : List ServiceDependency} (h : d.key ∉ seen)
    (hds : KeyNodup ServiceDependency.key (d :: ds)) :
    newDependencies seen (d :: ds) = d :: newDependencies (seen ++ [d.key]) ds := by
  have hne : ∀ x ∈ ds, x.key ≠ d.key := fun x hx heq =>
    (List.nodup_cons.1 hds).1 (heq ▸ List.mem_map_of_mem hx)
  rw [newDependencies, List.filter_cons_of_pos (by simpa using h), newDependencies]
  refine congrArg _ (List.filter_congr fun x hx => ?_)
  simp [hne x hx]

/-- The dependencies that a run has after those of a page. -/
def Taken.withDependencies (t : Taken) (preview : Bool) (ds : List ServiceDependency) : Taken :=
  let new := newDependencies t.state.seenDependencies ds
  let shown := if preview then newDependencies t.endpointDependencies ds else []
  { state := { t.state with
      seenDependencies := t.state.seenDependencies ++ new.map ServiceDependency.key
      dependencies := t.state.dependencies ++ new }
    preview := { t.preview with dependencies := t.preview.dependencies ++ shown }
    endpointDependencies := t.endpointDependencies ++ shown.map ServiceDependency.key }

theorem foldl_takeDependency {preview : Bool} {t : Taken} {ds : List ServiceDependency}
    (hds : KeyNodup ServiceDependency.key ds) :
    ds.foldl (takeDependency preview) t = t.withDependencies preview ds := by
  induction ds generalizing t with
  | nil => cases preview <;> simp [Taken.withDependencies, newDependencies]
  | cons d ds ih =>
      have htail : KeyNodup ServiceDependency.key ds := (List.nodup_cons.1 hds).2
      rw [List.foldl_cons, ih htail]
      by_cases hseen : d.key ∈ t.state.seenDependencies <;> cases preview <;>
        by_cases hshown : d.key ∈ t.endpointDependencies <;>
        simp [takeDependency, Taken.withDependencies, hseen, hshown,
          newDependencies_cons_of_mem, newDependencies_cons_of_notMem, hds]

/-- **The run after a page that is taken**: the entities of the page, its new dependencies and their
bytes are there, and nothing else. -/
def commitPage (preview : Bool) (sampleLimit : ℕ) (t : Taken) (mapped : MappedPage) : Taken :=
  let new := newDependencies t.state.seenDependencies mapped.dependencies
  let shown := if preview then newDependencies t.endpointDependencies mapped.dependencies else []
  { state :=
      { seenEntities := t.state.seenEntities ++ mapped.entities.map MappedEntity.key
        seenDependencies := t.state.seenDependencies ++ new.map ServiceDependency.key
        entityCount := t.state.entityCount + mapped.entities.length
        mappedOutputBytes := t.state.mappedOutputBytes + recipeEntitiesSize mapped.entities +
          dependenciesSize new + dependenciesSize shown
        entities :=
          if preview then t.state.entities else t.state.entities ++ mapped.entities
        dependencies := t.state.dependencies ++ new }
    preview :=
      { items := t.preview.items + mapped.items
        count := t.preview.count + mapped.entities.length
        skipped := t.preview.skipped + mapped.skipped
        samples := if preview then t.preview.samples ++
            mapped.entities.take (sampleLimit - t.preview.samples.length)
          else t.preview.samples
        dependencies := t.preview.dependencies ++ shown }
    endpointDependencies := t.endpointDependencies ++ shown.map ServiceDependency.key }

theorem pageOutputBytes_eq (preview : Bool) (t : Taken) (mapped : MappedPage) :
    pageOutputBytes preview t mapped = recipeEntitiesSize mapped.entities +
      dependenciesSize (newDependencies t.state.seenDependencies mapped.dependencies) +
        dependenciesSize
          (if preview then newDependencies t.endpointDependencies mapped.dependencies else []) := by
  rw [pageOutputBytes, Nat.add_assoc]
  refine congrArg _ ?_
  induction mapped.dependencies with
  | nil => cases preview <;> rfl
  | cons d ds ih =>
      rw [List.map_cons, List.sum_cons, ih]
      cases preview <;> by_cases hseen : d.key ∈ t.state.seenDependencies <;>
        by_cases hshown : d.key ∈ t.endpointDependencies <;>
        simp [dependencyBytes, newDependencies, dependenciesSize, hseen, hshown] <;> omega

/-- What is done for a page that is taken, entities first. -/
theorem takePage_eq {preview : Bool} {sampleLimit : ℕ} {t : Taken} {mapped : MappedPage}
    (hds : KeyNodup ServiceDependency.key mapped.dependencies) :
    takePage preview sampleLimit (t.know mapped) mapped = commitPage preview sampleLimit t mapped := by
  have hbytes : t.state.mappedOutputBytes + pageOutputBytes preview (t.know mapped) mapped =
      (commitPage preview sampleLimit t mapped).state.mappedOutputBytes := by
    rw [pageOutputBytes_eq, ← Nat.add_assoc, ← Nat.add_assoc]
    rfl
  rw [takePage, foldl_takeDependency hds, takeEntities]
  simp only [Taken.know] at hbytes ⊢
  rw [hbytes]
  rfl

section Fields

variable (preview : Bool) (sampleLimit : ℕ) (t : Taken) (mapped : MappedPage)

@[simp] theorem commitPage_seenEntities :
    (commitPage preview sampleLimit t mapped).state.seenEntities =
      t.state.seenEntities ++ mapped.entities.map MappedEntity.key := rfl

@[simp] theorem commitPage_entityCount :
    (commitPage preview sampleLimit t mapped).state.entityCount =
      t.state.entityCount + mapped.entities.length := rfl

@[simp] theorem commitPage_entities :
    (commitPage preview sampleLimit t mapped).state.entities =
      if preview then t.state.entities else t.state.entities ++ mapped.entities := rfl

@[simp] theorem commitPage_mappedOutputBytes :
    (commitPage preview sampleLimit t mapped).state.mappedOutputBytes =
      t.state.mappedOutputBytes + recipeEntitiesSize mapped.entities +
        dependenciesSize (newDependencies t.state.seenDependencies mapped.dependencies) +
        dependenciesSize (if preview then
          newDependencies t.endpointDependencies mapped.dependencies else []) := rfl

@[simp] theorem commitPage_seenDependencies :
    (commitPage preview sampleLimit t mapped).state.seenDependencies =
      t.state.seenDependencies ++ (newDependencies t.state.seenDependencies
        mapped.dependencies).map ServiceDependency.key := rfl

@[simp] theorem commitPage_dependencies :
    (commitPage preview sampleLimit t mapped).state.dependencies =
      t.state.dependencies ++
        newDependencies t.state.seenDependencies mapped.dependencies := rfl

@[simp] theorem commitPage_preview :
    (commitPage preview sampleLimit t mapped).preview =
      { items := t.preview.items + mapped.items
        count := t.preview.count + mapped.entities.length
        skipped := t.preview.skipped + mapped.skipped
        samples := if preview then t.preview.samples ++
            mapped.entities.take (sampleLimit - t.preview.samples.length)
          else t.preview.samples
        dependencies := t.preview.dependencies ++
          if preview then newDependencies t.endpointDependencies mapped.dependencies else [] } :=
  rfl

@[simp] theorem commitPage_endpointDependencies :
    (commitPage preview sampleLimit t mapped).endpointDependencies =
      t.endpointDependencies ++ (if preview then
        newDependencies t.endpointDependencies mapped.dependencies else []).map
          ServiceDependency.key := rfl

end Fields

/-- The keys of a page that is not taken are forgotten, and no other. -/
theorem rollbackRecipeEntities_know {t : Taken} {mapped : MappedPage}
    (h : ∀ e ∈ mapped.entities, e.key ∉ t.state.seenEntities) :
    rollbackRecipeEntities (t.know mapped) mapped.entities = t := by
  have hold : t.state.seenEntities.filter
      (fun key => key ∉ mapped.entities.map MappedEntity.key) = t.state.seenEntities := by
    refine List.filter_eq_self.2 fun key hkey => decide_eq_true fun hmem => ?_
    obtain ⟨e, he, rfl⟩ := List.mem_map.1 hmem
    exact h e he hkey
  have hnew : (mapped.entities.map MappedEntity.key).filter
      (fun key => key ∉ mapped.entities.map MappedEntity.key) = [] :=
    List.filter_eq_nil_iff.2 fun key hkey => by simpa using hkey
  simp only [rollbackRecipeEntities, Taken.know, List.filter_append]
  rw [hold, hnew, List.append_nil]

/-- **A page is within the limits** of a run: it has no items if it is past the last page, and the
entities and the bytes of the run are not too many with it. -/
structure PageFits (preview : Bool) (pageNumber : ℕ) (t : Taken) (mapped : MappedPage) : Prop where
  last : maxRecipePages < pageNumber → mapped.items = 0
  entities : t.state.entityCount + mapped.entities.length ≤ maxRecipeEntities
  output : t.state.mappedOutputBytes + recipeEntitiesSize mapped.entities +
    dependenciesSize (newDependencies t.state.seenDependencies mapped.dependencies) +
    dependenciesSize (if preview then
      newDependencies t.endpointDependencies mapped.dependencies else []) ≤ maxResponseBytes

theorem capError_eq_none {preview : Bool} {pageNumber : ℕ} {t : Taken} {mapped : MappedPage} :
    capError preview pageNumber t mapped = none ↔ PageFits preview pageNumber t mapped := by
  have hbytes : t.state.mappedOutputBytes + pageOutputBytes preview t mapped =
      t.state.mappedOutputBytes + recipeEntitiesSize mapped.entities +
        dependenciesSize (newDependencies t.state.seenDependencies mapped.dependencies) +
        dependenciesSize (if preview then
          newDependencies t.endpointDependencies mapped.dependencies else []) := by
    rw [pageOutputBytes_eq, ← Nat.add_assoc, ← Nat.add_assoc]
  constructor
  · intro h
    rw [capError, hbytes] at h
    refine ⟨?_, ?_, ?_⟩ <;> grind
  · rintro ⟨hlast, hentities, houtput⟩
    rw [capError, hbytes]
    grind

section Accepting

variable {fmt : Formats} {json : JsonPackage} {recipe : RecipeSpec RecipeAttribute}
  {endpoint : RecipeEndpoint RecipeAttribute} {preview : Bool} {sampleLimit pageNumber : ℕ}
  {body : Bytes} {t : Taken}

/-- A page whose mapping is within the limits is taken. -/
theorem acceptPage_of_mapped {mapped : MappedPage}
    (h : mapEndpointBudgeted fmt json recipe endpoint body t.state.seenEntities maxResponseBytes
      t.state.mappedOutputBytes = .ok mapped)
    (hcap : capError preview pageNumber t mapped = none) :
    acceptPage fmt json recipe endpoint preview sampleLimit pageNumber body t =
      (commitPage preview sampleLimit t mapped, .ok mapped.items) := by
  have hcap' : capError preview pageNumber (t.know mapped) mapped = none := hcap
  rw [acceptPage, h]
  simp only [hcap']
  rw [takePage_eq (mapEndpointBudgeted_ok h).1.dependencies]

/-- **A page is taken as a whole or not at all.** -/
theorem acceptPage_cases (fmt : Formats) (json : JsonPackage)
    (recipe : RecipeSpec RecipeAttribute) (endpoint : RecipeEndpoint RecipeAttribute)
    (preview : Bool) (sampleLimit pageNumber : ℕ) (body : Bytes) (t : Taken) :
    let result := acceptPage fmt json recipe endpoint preview sampleLimit pageNumber body t
    (∃ cause, result = (t, .error cause)) ∨
      ∃ mapped, mapEndpointBudgeted fmt json recipe endpoint body t.state.seenEntities
          maxResponseBytes t.state.mappedOutputBytes = .ok mapped ∧
        capError preview pageNumber t mapped = none ∧
        result = (commitPage preview sampleLimit t mapped, .ok mapped.items) := by
  dsimp only
  cases hmapped : mapEndpointBudgeted fmt json recipe endpoint body t.state.seenEntities
      maxResponseBytes t.state.mappedOutputBytes with
  | error text =>
      refine .inl ⟨.malformed text, ?_⟩
      rw [acceptPage, hmapped]
  | ok mapped =>
      cases hcap : capError preview pageNumber t mapped with
      | none => exact .inr ⟨mapped, rfl, hcap, acceptPage_of_mapped hmapped hcap⟩
      | some cause =>
          have hcap' : capError preview pageNumber (t.know mapped) mapped = some cause := hcap
          refine .inl ⟨cause, ?_⟩
          rw [acceptPage, hmapped]
          simp only [hcap']
          rw [rollbackRecipeEntities_know (mapEndpointBudgeted_ok hmapped).1.fresh]

/-- **A page is taken as a whole or not at all**: one that maps to entities and dependencies within
the limits is taken, its entities are new, and it adds what it maps to; any other leaves the run as
it was. -/
theorem acceptPage_whole (fmt : Formats) (json : JsonPackage) (recipe : RecipeSpec RecipeAttribute)
    (endpoint : RecipeEndpoint RecipeAttribute) (preview : Bool) (sampleLimit pageNumber : ℕ)
    (body : Bytes) (t : Taken) :
    let result := acceptPage fmt json recipe endpoint preview sampleLimit pageNumber body t
    let Maps := fun mapped => mapEndpointBudgeted fmt json recipe endpoint body
      t.state.seenEntities maxResponseBytes t.state.mappedOutputBytes = .ok mapped ∧
        PageFits preview pageNumber t mapped
    (∃ mapped, Maps mapped ∧
      PageOk t.state.seenEntities maxResponseBytes t.state.mappedOutputBytes mapped ∧
      result = (commitPage preview sampleLimit t mapped, .ok mapped.items)) ∨
    ((¬ ∃ mapped, Maps mapped) ∧ result.1 = t ∧ ∃ cause, result.2 = .error cause) := by
  dsimp only
  by_cases h : ∃ mapped, mapEndpointBudgeted fmt json recipe endpoint body
      t.state.seenEntities maxResponseBytes t.state.mappedOutputBytes = .ok mapped ∧
        PageFits preview pageNumber t mapped
  · obtain ⟨mapped, hmapped, hfits⟩ := h
    exact .inl ⟨mapped, ⟨hmapped, hfits⟩, (mapEndpointBudgeted_ok hmapped).1,
      acceptPage_of_mapped hmapped (capError_eq_none.2 hfits)⟩
  · obtain ⟨cause, heq⟩ | ⟨mapped, hmapped, hcap, -⟩ := acceptPage_cases fmt json
      recipe endpoint preview sampleLimit pageNumber body t
    · exact .inr ⟨h, congrArg Prod.fst heq, cause, congrArg Prod.snd heq⟩
    · exact absurd ⟨mapped, hmapped, capError_eq_none.1 hcap⟩ h

end Accepting

/-! ### What a run keeps -/

/-- What holds of the state of a run. -/
structure RecipeRunState.Sound (s : RecipeRunState) : Prop where
  distinct : s.seenEntities.Nodup
  counted : s.entityCount = s.seenEntities.length
  entityLimit : s.entityCount ≤ maxRecipeEntities
  outputLimit : s.mappedOutputBytes ≤ maxResponseBytes
  dependencies : KeyNodup ServiceDependency.key s.dependencies
  dependencyKeys : s.seenDependencies = s.dependencies.map ServiceDependency.key

theorem RecipeRunState.start_sound : RecipeRunState.start.Sound where
  distinct := List.nodup_nil
  counted := rfl
  entityLimit := Nat.zero_le _
  outputLimit := Nat.zero_le _
  dependencies := keyNodup_nil
  dependencyKeys := rfl

/-- What an endpoint has taken since a state of the run: these entities, and no other. -/
structure Taken.Since (preview : Bool) (sampleLimit : ℕ) (base : RecipeRunState)
    (entities : List MappedEntity) (t : Taken) : Prop where
  state : t.state.Sound
  seen : t.state.seenEntities = base.seenEntities ++ entities.map MappedEntity.key
  kept : t.state.entities = base.entities ++ if preview then [] else entities
  count : t.preview.count = entities.length
  items : t.preview.count + t.preview.skipped = t.preview.items
  samples : t.preview.samples = if preview then entities.take sampleLimit else []
  dependencies : KeyNodup ServiceDependency.key t.preview.dependencies
  dependencyKeys : t.endpointDependencies = t.preview.dependencies.map ServiceDependency.key
  output : t.state.mappedOutputBytes + dependenciesSize base.dependencies =
    base.mappedOutputBytes + recipeEntitiesSize entities + dependenciesSize t.state.dependencies +
      dependenciesSize t.preview.dependencies

theorem newDependencies_append_keyNodup {known ds : List ServiceDependency}
    (hknown : KeyNodup ServiceDependency.key known) (hds : KeyNodup ServiceDependency.key ds) :
    KeyNodup ServiceDependency.key
      (known ++ newDependencies (known.map ServiceDependency.key) ds) := by
  unfold KeyNodup at hknown hds ⊢
  rw [List.map_append]
  refine List.nodup_append.2 ⟨hknown, hds.sublist (List.filter_sublist.map _), ?_⟩
  rintro key hkey _ hnew rfl
  obtain ⟨d, hd, rfl⟩ := List.mem_map.1 hnew
  exact of_decide_eq_true (List.mem_filter.1 hd).2 hkey

@[simp] theorem dependenciesSize_nil : dependenciesSize [] = 0 := rfl

@[simp] theorem dependenciesSize_append (ds ds' : List ServiceDependency) :
    dependenciesSize (ds ++ ds') = dependenciesSize ds + dependenciesSize ds' := by
  simp [dependenciesSize]

@[simp] theorem recipeEntitiesSize_append (es es' : List MappedEntity) :
    recipeEntitiesSize (es ++ es') = recipeEntitiesSize es + recipeEntitiesSize es' := by
  simp [recipeEntitiesSize]

/-- **What a page that is taken keeps.** -/
theorem Taken.Since.commitPage {preview : Bool} {sampleLimit pageNumber : ℕ}
    {base : RecipeRunState} {entities : List MappedEntity} {t : Taken} {mapped : MappedPage}
    (h : t.Since preview sampleLimit base entities)
    (hpage : PageOk t.state.seenEntities maxResponseBytes t.state.mappedOutputBytes mapped)
    (hcap : capError preview pageNumber t mapped = none) :
    (commitPage preview sampleLimit t mapped).Since preview sampleLimit base
      (entities ++ mapped.entities) := by
  obtain ⟨-, hentities, houtput⟩ := capError_eq_none.1 hcap
  have hstate : (Recipe.commitPage preview sampleLimit t mapped).state.Sound := by
    refine ⟨?_, ?_, hentities, houtput, ?_, ?_⟩
    · refine List.nodup_append.2 ⟨h.state.distinct, hpage.distinct, ?_⟩
      rintro key hkey _ hnew rfl
      obtain ⟨e, he, rfl⟩ := List.mem_map.1 hnew
      exact hpage.fresh e he hkey
    · calc t.state.entityCount + mapped.entities.length
          = t.state.seenEntities.length + (mapped.entities.map MappedEntity.key).length := by
            rw [h.state.counted, List.length_map]
        _ = _ := List.length_append.symm
    · have := newDependencies_append_keyNodup h.state.dependencies hpage.dependencies
      rw [← h.state.dependencyKeys] at this
      exact this
    · simp [h.state.dependencyKeys]
  refine ⟨hstate, ?_, ?_, ?_, ?_, ?_, ?_, ?_, ?_⟩
  · simp [h.seen]
  · cases preview <;>
      simp [h.kept]
  · simp [h.count]
  · have h₁ := h.items
    have h₂ := hpage.counted
    simp only [commitPage_preview]
    omega
  · have hleft : sampleLimit - min sampleLimit entities.length = sampleLimit - entities.length := by
      omega
    cases preview <;> simp [h.samples, List.take_append, hleft]
  · cases preview
    · simpa using h.dependencies
    · have := newDependencies_append_keyNodup h.dependencies hpage.dependencies
      rw [← h.dependencyKeys] at this
      exact this
  · cases preview <;> simp [h.dependencyKeys]
  · have := h.output
    simp only [commitPage_mappedOutputBytes, commitPage_dependencies, commitPage_preview,
      dependenciesSize_append, recipeEntitiesSize_append]
    omega

/-! ### One turn -/

section Runs

variable {R H : Type} {fmt : Formats} {json : JsonPackage} {server : List R → Turn H}
  {recipe : RecipeSpec RecipeAttribute} {preview : Bool} {e : EndpointRun R H}
  {sampleLimit left : ℕ} {request : R} {strategy : Strategy} {s : PagesState R}

/-- The page of a request is taken: what it maps to is within the limits. -/
structure TakenAt (fmt : Formats) (json : JsonPackage) (server : List R → Turn H)
    (recipe : RecipeSpec RecipeAttribute) (preview : Bool) (e : EndpointRun R H) (left : ℕ)
    (request : R) (s : PagesState R) (page : FetchedPage H) (mapped : MappedPage) : Prop where
  before : (server (s.requests ++ [request])).before = none
  fetched : fetchRecipePage json (server (s.requests ++ [request])) = .ok page
  maps : mapEndpointBudgeted fmt json recipe e.endpoint page.body s.taken.state.seenEntities
    maxResponseBytes s.taken.state.mappedOutputBytes = .ok mapped
  within : capError preview (maxRecipePages + 1 - left) s.taken mapped = none

/-- The run after a page that is taken. -/
def PagesState.take (s : PagesState R) (preview : Bool) (sampleLimit : ℕ) (request : R)
    (page : FetchedPage H) (mapped : MappedPage) : PagesState R :=
  ⟨commitPage preview sampleLimit s.taken mapped, page.status, s.requests ++ [request]⟩

/-- What follows a page that is taken. -/
theorem runPages_of_taken {page : FetchedPage H} {mapped : MappedPage} :
    TakenAt fmt json server recipe preview e left request s page mapped →
    runPages fmt json server recipe preview e sampleLimit left request strategy s =
      let s' := s.take preview sampleLimit request page mapped
      let pageNumber := maxRecipePages + 1 - left
      match (server (s.requests ++ [request])).after with
      | some text => (s', some (e.fail pageNumber (.transport text)))
      | none =>
          match strategy.next json e.pkg request page mapped.items with
          | .error cause => (s', some (e.fail pageNumber cause))
          | .ok none => (s', none)
          | .ok (some (next, strategy)) =>
              match left with
              | 0 => (s', some (e.fail pageNumber .pageLimit))
              | left + 1 =>
                  runPages fmt json server recipe preview e sampleLimit left next strategy s' := by
  intro h
  have haccept : acceptPage fmt json recipe e.endpoint preview sampleLimit
      (maxRecipePages + 1 - left) page.body s.taken =
        (commitPage preview sampleLimit s.taken mapped, .ok mapped.items) :=
    acceptPage_of_mapped h.maps h.within
  rw [runPages.eq_def]
  simp only [h.before, h.fetched, haccept]
  rfl

/-- **One turn**: the page of the request is taken, or the endpoint fails and has taken nothing
more. -/
theorem runPages_turn (fmt : Formats) (json : JsonPackage) (server : List R → Turn H)
    (recipe : RecipeSpec RecipeAttribute) (preview : Bool) (e : EndpointRun R H)
    (sampleLimit left : ℕ) (request : R) (strategy : Strategy) (s : PagesState R) :
    (∃ page mapped, TakenAt fmt json server recipe preview e left request s page mapped) ∨
      ∃ err, runPages fmt json server recipe preview e sampleLimit left request strategy s =
          (s, some err) ∨
        runPages fmt json server recipe preview e sampleLimit left request strategy s =
          ({ s with requests := s.requests ++ [request] }, some err) := by
  cases hbefore : (server (s.requests ++ [request])).before with
  | some text =>
      refine .inr ⟨e.fail (maxRecipePages + 1 - left) (.transport text), .inl ?_⟩
      rw [runPages.eq_def]
      simp only [hbefore]
  | none =>
      cases hfetched : fetchRecipePage json (server (s.requests ++ [request])) with
      | error cause =>
          refine .inr ⟨e.fail (maxRecipePages + 1 - left) cause, .inr ?_⟩
          rw [runPages.eq_def]
          simp only [hbefore, hfetched]
      | ok page =>
          obtain ⟨cause, haccept⟩ | ⟨mapped, hmapped, hcap, -⟩ :=
            acceptPage_cases fmt json recipe e.endpoint preview sampleLimit
              (maxRecipePages + 1 - left) page.body s.taken
          · refine .inr ⟨e.fail (maxRecipePages + 1 - left) cause, .inr ?_⟩
            rw [runPages.eq_def]
            simp only [hbefore, hfetched, haccept]
          · exact .inl ⟨page, mapped, hbefore, hfetched, hmapped, hcap⟩

/-- **What every page keeps, the pages of an endpoint keep.** -/
theorem runPages_keeps {I : PagesState R → Prop}
    (page : ∀ left request s page mapped,
      TakenAt fmt json server recipe preview e left request s page mapped → I s →
        I (s.take preview sampleLimit request page mapped))
    (sent : ∀ s request, I s → I { s with requests := s.requests ++ [request] })
    (h : I s) :
    I (runPages fmt json server recipe preview e sampleLimit left request strategy s).1 := by
  induction left generalizing request strategy s with
  | zero =>
      obtain ⟨pg, mapped, htaken⟩ | ⟨err, heq | heq⟩ :=
        runPages_turn fmt json server recipe preview e sampleLimit 0 request
          strategy s
      · have hnext := page _ _ _ _ _ htaken h
        rw [runPages_of_taken htaken]
        dsimp only
        split <;> [exact hnext; (split <;> exact hnext)]
      · rw [heq]
        exact h
      · rw [heq]
        exact sent s request h
  | succ left ih =>
      obtain ⟨pg, mapped, htaken⟩ | ⟨err, heq | heq⟩ :=
        runPages_turn fmt json server recipe preview e sampleLimit (left + 1) request
          strategy s
      · have hnext := page _ _ _ _ _ htaken h
        rw [runPages_of_taken htaken]
        dsimp only
        split
        · exact hnext
        · split
          · exact hnext
          · exact hnext
          · exact ih hnext
      · rw [heq]
        exact h
      · rw [heq]
        exact sent s request h

end Runs

/-! ### The requests of an endpoint -/

section Requests

variable {R H : Type}

/-- **What the next request is**, by the strategy of an endpoint: one by the next number if the page
has items, or by the cursor of the page or its next link if there is a new one. -/
def Strategy.Builds (strategy : Strategy) (json : JsonPackage) (pkg : RequestPackage R H)
    (request : R) (page : FetchedPage H) (items : ℕ) (next : R) (strategy' : Strategy) : Prop :=
  match strategy with
  | .singlePage => False
  | .numeric value step => 0 < items ∧ value + step ≤ maxInt ∧
      pkg.forValue request (bytes (toString (value + step))) = .ok next ∧
        strategy' = .numeric (value + step) step
  | .cursor sent seen path => ∃ cursor,
      recipePathString json.pathValue page.body path = .ok (some cursor) ∧ cursor ≠ [] ∧
        cursor.length ≤ maxRecipePaginationValueBytes ∧ cursor ≠ sent ∧ cursor ∉ seen ∧
          pkg.forValue request cursor = .ok next ∧
            strategy' = .cursor cursor (cursor :: seen) path
  | .nextLink seen linkHeader path => ∃ link,
      pageLink json pkg linkHeader path page = .ok (some link) ∧ trimSpace link ≠ [] ∧
        (trimSpace link).length ≤ maxRecipePaginationValueBytes ∧ pkg.forLink link = .ok next ∧
          pkg.urlKey next ∉ seen ∧
            strategy' = .nextLink (pkg.urlKey next :: seen) linkHeader path

theorem Strategy.builds_of_next {json : JsonPackage} {pkg : RequestPackage R H} {request next : R}
    {page : FetchedPage H} {items : ℕ} {strategy strategy' : Strategy}
    (h : strategy.next json pkg request page items = .ok (some (next, strategy'))) :
    strategy.Builds json pkg request page items next strategy' := by
  cases strategy with
  | singlePage => cases h
  | numeric value step =>
      rw [Strategy.next] at h
      by_cases hitems : items = 0
      · rw [if_pos hitems] at h
        cases h
      · rw [if_neg hitems, ite_error_eq_ok] at h
        obtain ⟨hmax, h⟩ := h
        obtain ⟨built, hbuilt, h⟩ := bind_eq_ok.1 h
        obtain ⟨rfl, rfl⟩ := Prod.mk.inj (Option.some.inj (Except.ok.inj h))
        exact ⟨Nat.pos_of_ne_zero hitems, by omega, mapError_eq_ok.1 hbuilt, rfl⟩
  | cursor sent seen path =>
      rw [Strategy.next] at h
      obtain ⟨cursor, hcursor, h⟩ := bind_eq_ok.1 h
      cases cursor with
      | none => cases h
      | some cursor =>
          simp only at h
          by_cases hempty : cursor = []
          · rw [if_pos hempty] at h
            cases h
          · rw [if_neg hempty, ite_error_eq_ok, ite_error_eq_ok, ite_error_eq_ok] at h
            obtain ⟨hlong, hstuck, hrepeated, h⟩ := h
            obtain ⟨built, hbuilt, h⟩ := bind_eq_ok.1 h
            obtain ⟨rfl, rfl⟩ := Prod.mk.inj (Option.some.inj (Except.ok.inj h))
            exact ⟨cursor, mapError_eq_ok.1 hcursor, hempty, not_lt.1 hlong, hstuck, hrepeated,
              mapError_eq_ok.1 hbuilt, rfl⟩
  | nextLink seen linkHeader path =>
      rw [Strategy.next] at h
      obtain ⟨link, hlink, h⟩ := bind_eq_ok.1 h
      cases link with
      | none => cases h
      | some link =>
          simp only at h
          by_cases htrim : trimSpace link = []
          · rw [if_pos htrim] at h
            cases h
          · rw [if_neg htrim, ite_error_eq_ok] at h
            obtain ⟨hlong, h⟩ := h
            obtain ⟨built, hbuilt, h⟩ := bind_eq_ok.1 h
            rw [ite_error_eq_ok] at h
            obtain ⟨hnew, h⟩ := h
            obtain ⟨rfl, rfl⟩ := Prod.mk.inj (Option.some.inj (Except.ok.inj h))
            exact ⟨link, hlink, htrim, not_lt.1 hlong, mapError_eq_ok.1 hbuilt, hnew, rfl⟩

/-- Each request is built from the one before it, by the next value. -/
inductive Built (pkg : RequestPackage R H) : R → List Bytes → List R → Prop
  | done (request : R) : Built pkg request [] []
  | next {request next : R} {value : Bytes} {values : List Bytes} {rest : List R} :
      pkg.forValue request value = .ok next → Built pkg next values rest →
        Built pkg request (value :: values) (next :: rest)

/-- The values after one, by a step. -/
def numericValues (value step : ℤ) : ℕ → List ℤ
  | 0 => []
  | n + 1 => (value + step) :: numericValues (value + step) step n

/-- What a strategy sends after a request. -/
def Strategy.Sends (pkg : RequestPackage R H) (request : R) (rest : List R) : Strategy → Prop
  | .singlePage => rest = []
  | .numeric value step =>
      Built pkg request ((numericValues value step rest.length).map fun v => bytes (toString v))
          rest ∧
        ∀ v ∈ numericValues value step rest.length, v ≤ maxInt
  | .cursor _ seen _ => ∃ cursors, Built pkg request cursors rest ∧ cursors.Nodup ∧
      ∀ c ∈ cursors, c ≠ [] ∧ c.length ≤ maxRecipePaginationValueBytes ∧ c ∉ seen
  | .nextLink seen _ _ => (rest.map pkg.urlKey).Nodup ∧ ∀ r ∈ rest, pkg.urlKey r ∉ seen

theorem Strategy.sends_nil (pkg : RequestPackage R H) (request : R) (strategy : Strategy) :
    strategy.Sends pkg request [] := by
  cases strategy with
  | singlePage => rfl
  | numeric value step => exact ⟨.done request, fun v hv => absurd hv List.not_mem_nil⟩
  | cursor sent seen path =>
      exact ⟨[], .done request, List.nodup_nil, fun c hc => absurd hc List.not_mem_nil⟩
  | nextLink seen linkHeader path =>
      exact ⟨List.nodup_nil, fun r hr => absurd hr List.not_mem_nil⟩

/-- **One request more**: it differs from those before it as the strategy says. -/
theorem Strategy.sends_cons {json : JsonPackage} {pkg : RequestPackage R H} {request next : R}
    {page : FetchedPage H} {items : ℕ} {strategy strategy' : Strategy} {rest : List R}
    (h : strategy.Builds json pkg request page items next strategy')
    (hrest : strategy'.Sends pkg next rest) : strategy.Sends pkg request (next :: rest) := by
  cases strategy with
  | singlePage => exact absurd h id
  | numeric value step =>
      obtain ⟨-, hmax, hbuilt, rfl⟩ := h
      obtain ⟨hvalues, hle⟩ := hrest
      refine ⟨.next hbuilt hvalues, ?_⟩
      rintro v (_ | ⟨_, hv⟩)
      · exact hmax
      · exact hle v hv
  | cursor sent seen path =>
      obtain ⟨cursor, -, hempty, hlong, -, hrepeated, hbuilt, rfl⟩ := h
      obtain ⟨cursors, hcursors, hnodup, hall⟩ := hrest
      refine ⟨cursor :: cursors, .next hbuilt hcursors,
        List.nodup_cons.2 ⟨fun hmem => (hall cursor hmem).2.2 List.mem_cons_self, hnodup⟩, ?_⟩
      rintro c (_ | ⟨_, hc⟩)
      · exact ⟨hempty, hlong, hrepeated⟩
      · obtain ⟨hne, hle, hseen⟩ := hall c hc
        exact ⟨hne, hle, fun hmem => hseen (List.mem_cons_of_mem _ hmem)⟩
  | nextLink seen linkHeader path =>
      obtain ⟨link, -, -, -, -, hnew, rfl⟩ := h
      obtain ⟨hnodup, hseen⟩ := hrest
      refine ⟨List.nodup_cons.2 ⟨fun hmem => ?_, hnodup⟩, ?_⟩
      · obtain ⟨r, hr, hkey⟩ := List.mem_map.1 hmem
        exact hseen r hr (hkey ▸ List.mem_cons_self)
      · rintro r (_ | ⟨_, hr⟩)
        · exact hnew
        · exact fun hmem => hseen r hr (List.mem_cons_of_mem _ hmem)

/-- **Each request is built from the page that answers the one before it**; `before` are the
requests that the run has sent before the first one. -/
inductive Asked (json : JsonPackage) (server : List R → Turn H) (e : EndpointRun R H) :
    List R → R → Strategy → List R → Prop
  | done (before : List R) (request : R) (strategy : Strategy) :
      Asked json server e before request strategy []
  | next {before rest : List R} {request next : R} {strategy strategy' : Strategy}
      {page : FetchedPage H} {items : List Bytes} :
      fetchRecipePage json (server (before ++ [request])) = .ok page →
      json.items page.body e.endpoint.items = some items →
      strategy.Builds json e.pkg request page items.length next strategy' →
      Asked json server e (before ++ [request]) next strategy' rest →
      Asked json server e before request strategy (next :: rest)

theorem Asked.sends {json : JsonPackage} {server : List R → Turn H} {e : EndpointRun R H}
    {before rest : List R} {request : R} {strategy : Strategy}
    (h : Asked json server e before request strategy rest) :
    strategy.Sends e.pkg request rest := by
  induction h with
  | done before request strategy => exact strategy.sends_nil e.pkg request
  | next _ _ hbuilds _ ih => exact Strategy.sends_cons hbuilds ih

section Endpoints

variable {fmt : Formats} {json : JsonPackage} {server : List R → Turn H}
  {recipe : RecipeSpec RecipeAttribute} {preview : Bool} {e : EndpointRun R H}
  {sampleLimit left : ℕ} {request : R} {strategy : Strategy} {s : PagesState R}

theorem runPages_requests (fmt : Formats) (json : JsonPackage) (server : List R → Turn H)
    (recipe : RecipeSpec RecipeAttribute) (preview : Bool) (e : EndpointRun R H)
    (sampleLimit left : ℕ) (request : R) (strategy : Strategy) (s : PagesState R) :
    (runPages fmt json server recipe preview e sampleLimit left request strategy s).1.requests =
        s.requests ∨
      ∃ rest, (runPages fmt json server recipe preview e sampleLimit left request strategy
            s).1.requests = s.requests ++ request :: rest ∧
        rest.length ≤ left ∧ Asked json server e s.requests request strategy rest := by
  have hlast : ∀ requests : List R, requests = s.requests ++ [request] →
      ∃ rest, requests = s.requests ++ request :: rest ∧ rest.length ≤ left ∧
        Asked json server e s.requests request strategy rest :=
    fun _ heq => ⟨[], heq, Nat.zero_le _, .done s.requests request strategy⟩
  induction left generalizing request strategy s with
  | zero =>
      obtain ⟨page, mapped, htaken⟩ | ⟨err, heq | heq⟩ :=
        runPages_turn fmt json server recipe preview e sampleLimit 0 request
          strategy s
      · rw [runPages_of_taken htaken]
        refine .inr (hlast _ ?_)
        dsimp only
        split <;> [rfl; (split <;> rfl)]
      · rw [heq]
        exact .inl rfl
      · rw [heq]
        exact .inr (hlast _ rfl)
  | succ left ih =>
      obtain ⟨page, mapped, htaken⟩ | ⟨err, heq | heq⟩ :=
        runPages_turn fmt json server recipe preview e sampleLimit (left + 1) request
          strategy s
      · rw [runPages_of_taken htaken]
        dsimp only
        split
        · exact .inr (hlast _ rfl)
        · split
          · exact .inr (hlast _ rfl)
          · exact .inr (hlast _ rfl)
          · rename_i next strategy' hnext
            obtain ⟨-, -, items, hitems, hcount⟩ := mapEndpointBudgeted_ok htaken.maps
            obtain hnone | ⟨rest, hrest, hlength, hasked⟩ := ih next strategy'
              (s.take preview sampleLimit request page mapped)
              fun _ heq => ⟨[], heq, Nat.zero_le _, .done _ next strategy'⟩
            · exact .inr (hlast _ hnone)
            · refine .inr ⟨next :: rest, hrest.trans ?_, Nat.succ_le_succ hlength,
                .next htaken.fetched hitems ?_ hasked⟩
              · exact List.append_assoc ..
              · rw [← hcount]
                exact Strategy.builds_of_next hnext
      · rw [heq]
        exact .inl rfl
      · rw [heq]
        exact .inr (hlast _ rfl)

/-- **The requests of an endpoint**: the first one and at most a hundred more, each built from the
page that answers the one before it; by values that stay within the range of an integer, by cursors
none of which was sent before, or to addresses none of which was asked before. -/
def EndpointRun.RequestsOk (json : JsonPackage) (server : List R → Turn H) (e : EndpointRun R H)
    (before sent : List R) : Prop :=
  sent = [] ∨ ∃ rest, sent = e.initial :: rest ∧ rest.length ≤ maxRecipePages ∧
    (∃ strategy, Strategy.new e.pkg e.initial e.endpoint.pagination = .ok strategy ∧
      Asked json server e before e.initial strategy rest) ∧
    match e.endpoint.pagination with
    | none => rest = []
    | some p =>
        match p.type with
        | .page =>
            let values := numericValues (if p.hasStart then p.start.val else 1) 1 rest.length
            Built e.pkg e.initial (values.map fun v => bytes (toString v)) rest ∧
              ∀ v ∈ values, v ≤ maxInt
        | .offset =>
            let values := numericValues p.start.val p.size.val rest.length
            Built e.pkg e.initial (values.map fun v => bytes (toString v)) rest ∧
              ∀ v ∈ values, v ≤ maxInt
        | .cursor => ∃ cursors, Built e.pkg e.initial cursors rest ∧
            (e.pkg.queryParam e.initial p.param :: cursors).Nodup ∧
              ∀ c ∈ cursors, c ≠ [] ∧ c.length ≤ maxRecipePaginationValueBytes
        | .nextLink => (sent.map e.pkg.urlKey).Nodup
        | .other _ => False

/-- What the strategy of an endpoint sends is what the endpoint may send. -/
theorem EndpointRun.requestsOk_of_asked {before rest : List R}
    (hlength : rest.length ≤ maxRecipePages)
    (hnew : Strategy.new e.pkg e.initial e.endpoint.pagination = .ok strategy)
    (hasked : Asked json server e before e.initial strategy rest) :
    e.RequestsOk json server before (e.initial :: rest) := by
  refine .inr ⟨rest, rfl, hlength, ⟨strategy, hnew, hasked⟩, ?_⟩
  have hsends := hasked.sends
  cases hpagination : e.endpoint.pagination with
  | none =>
      rw [hpagination] at hnew
      obtain rfl := Except.ok.inj hnew
      exact hsends
  | some p =>
      rw [hpagination] at hnew
      dsimp only
      cases htype : p.type with
      | other raw =>
          simp only [Strategy.new, htype] at hnew
          cases hnew
      | page =>
          simp only [Strategy.new, htype] at hnew
          obtain rfl := Except.ok.inj hnew
          exact hsends
      | offset =>
          simp only [Strategy.new, htype] at hnew
          obtain rfl := Except.ok.inj hnew
          exact hsends
      | cursor =>
          simp only [Strategy.new, htype] at hnew
          obtain rfl := Except.ok.inj hnew
          obtain ⟨cursors, hbuilt, hnodup, hall⟩ := hsends
          refine ⟨cursors, hbuilt, List.nodup_cons.2 ⟨fun hmem => ?_, hnodup⟩,
            fun c hc => ⟨(hall c hc).1, (hall c hc).2.1⟩⟩
          obtain ⟨hne, -, hseen⟩ := hall _ hmem
          rw [if_neg hne] at hseen
          exact hseen List.mem_cons_self
      | nextLink =>
          simp only [Strategy.new, htype] at hnew
          obtain rfl := Except.ok.inj hnew
          obtain ⟨hnodup, hseen⟩ := hsends
          refine List.nodup_cons.2 ⟨fun hmem => ?_, hnodup⟩
          obtain ⟨r, hr, hkey⟩ := List.mem_map.1 hmem
          exact hseen r hr (hkey ▸ List.mem_cons_self)

theorem EndpointRun.RequestsOk.length_le {before sent : List R}
    (h : e.RequestsOk json server before sent) :
    sent.length ≤ maxRecipePages + 1 := by
  obtain rfl | ⟨rest, rfl, hlength, -⟩ := h
  · exact Nat.zero_le _
  · exact Nat.succ_le_succ hlength

/-- **An endpoint ends after a bounded number of requests, and sends none twice**, whatever the
server answers. -/
theorem runRecipeEndpoint_requests (e : EndpointRun R H) (sampleLimit : ℕ)
    (state : RecipeRunState) (requests : List R) :
    ∃ sent, (runRecipeEndpoint fmt json server recipe preview e sampleLimit state
        requests).1.requests = requests ++ sent ∧ e.RequestsOk json server requests sent := by
  rw [runRecipeEndpoint]
  cases hnew : Strategy.new e.pkg e.initial e.endpoint.pagination with
  | error cause => exact ⟨[], (List.append_nil _).symm, .inl rfl⟩
  | ok strategy =>
      obtain hnone | ⟨rest, hrest, hlength, hasked⟩ := runPages_requests fmt
        json server recipe preview e sampleLimit maxRecipePages e.initial strategy
        ⟨⟨state, ⟨0, 0, 0, [], []⟩, []⟩, 0, requests⟩
      · exact ⟨[], hnone.trans (List.append_nil _).symm, .inl rfl⟩
      · exact ⟨_, hrest, e.requestsOk_of_asked hlength hnew hasked⟩

end Endpoints

end Requests

/-! ### A whole run -/

section Recipes

variable {R H : Type} {fmt : Formats} {json : JsonPackage} {server : List R → Turn H}
  {recipe : RecipeSpec RecipeAttribute} {preview : Bool}

theorem Taken.since_start {base : RecipeRunState} (sampleLimit : ℕ) (hbase : base.Sound) :
    Taken.Since preview sampleLimit base [] ⟨base, ⟨0, 0, 0, [], []⟩, []⟩ where
  state := hbase
  seen := (List.append_nil _).symm
  kept := by cases preview <;> exact (List.append_nil _).symm
  count := rfl
  items := rfl
  samples := by cases preview <;> simp
  dependencies := keyNodup_nil
  dependencyKeys := rfl
  output := rfl

/-- **What an endpoint takes**, whether it fails or not. -/
theorem runRecipeEndpoint_since (fmt : Formats) (json : JsonPackage) (server : List R → Turn H)
    (recipe : RecipeSpec RecipeAttribute) (preview : Bool) (e : EndpointRun R H) (sampleLimit : ℕ)
    {base : RecipeRunState} (hbase : base.Sound) (requests : List R) :
    ∃ entities, (runRecipeEndpoint fmt json server recipe preview e sampleLimit base
      requests).1.taken.Since preview sampleLimit base entities := by
  rw [runRecipeEndpoint]
  cases Strategy.new e.pkg e.initial e.endpoint.pagination with
  | error cause => exact ⟨[], Taken.since_start sampleLimit hbase⟩
  | ok strategy =>
      refine runPages_keeps
        (I := fun s => ∃ entities, s.taken.Since preview sampleLimit base entities)
        ?_ (fun _ _ h => h) ⟨[], Taken.since_start sampleLimit hbase⟩
      rintro left request s page mapped htaken ⟨entities, hsince⟩
      exact ⟨_, hsince.commitPage (mapEndpointBudgeted_ok htaken.maps).1 htaken.within⟩

/-- What a run tells of an endpoint, by the entities that the endpoint has taken. -/
structure EndpointReport.Of (preview : Bool) (r : EndpointReport) (entities : List MappedEntity) :
    Prop where
  count : r.preview.count = entities.length
  items : r.preview.count + r.preview.skipped = r.preview.items
  samples : r.preview.samples = if preview then entities.take maxPreviewSamples else []
  dependencies : KeyNodup ServiceDependency.key r.preview.dependencies

/-- **What holds of a run**, by the entities that its endpoints have taken. -/
structure RecipeRun.Sound (preview : Bool) (run : RecipeRun R) (parts : List (List MappedEntity)) :
    Prop where
  state : run.state.Sound
  seen : run.state.seenEntities = parts.flatten.map MappedEntity.key
  kept : run.state.entities = if preview then [] else parts.flatten
  reports : List.Forall₂ (EndpointReport.Of preview) run.reports parts
  output : run.state.mappedOutputBytes = recipeEntitiesSize parts.flatten +
    dependenciesSize run.state.dependencies +
      (run.reports.map fun r => dependenciesSize r.preview.dependencies).sum

theorem RecipeRun.start_sound : RecipeRun.Sound preview (⟨.start, [], []⟩ : RecipeRun R) [] where
  state := RecipeRunState.start_sound
  seen := rfl
  kept := by cases preview <;> rfl
  reports := .nil
  output := rfl

/-- The run after an endpoint. -/
def RecipeRun.afterEndpoint (run : RecipeRun R) (name : Bytes)
    (result : PagesState R × Option EndpointError) : RecipeRun R :=
  ⟨result.1.taken.state, result.1.requests,
    run.reports ++ [⟨name, result.1.taken.preview, result.1.statusCode, result.2⟩]⟩

def sampleLimitOf (preview : Bool) : ℕ := if preview then maxPreviewSamples else 0

/-- **What an endpoint keeps**. -/
theorem RecipeRun.Sound.afterEndpoint {run : RecipeRun R} {parts : List (List MappedEntity)}
    {entities : List MappedEntity} {name : Bytes} {result : PagesState R × Option EndpointError}
    (h : run.Sound preview parts)
    (hsince : result.1.taken.Since preview (sampleLimitOf preview) run.state entities) :
    (run.afterEndpoint name result).Sound preview (parts ++ [entities]) where
  state := hsince.state
  seen := by
    have := hsince.seen
    rw [h.seen] at this
    simpa [RecipeRun.afterEndpoint] using this
  kept := by
    have := hsince.kept
    rw [h.kept] at this
    cases preview <;> simpa [RecipeRun.afterEndpoint] using this
  reports := by
    refine List.rel_append h.reports
      (.cons ⟨hsince.count, hsince.items, ?_, hsince.dependencies⟩ .nil)
    have := hsince.samples
    cases preview <;> exact this
  output := by
    have h₁ := hsince.output
    have h₂ := h.output
    simp [RecipeRun.afterEndpoint]
    omega

theorem runEndpoints_sound {run run' : RecipeRun R} {parts : List (List MappedEntity)}
    {endpoints : List (EndpointRun R H)} (h : run.Sound preview parts)
    (hrun : runEndpoints fmt json server recipe preview run endpoints = .ok run') :
    ∃ parts', run'.Sound preview (parts ++ parts') ∧ parts'.length = endpoints.length := by
  induction endpoints generalizing run parts with
  | nil =>
      obtain rfl := Except.ok.inj hrun
      exact ⟨[], by rwa [List.append_nil], rfl⟩
  | cons e endpoints ih =>
      obtain ⟨entities, hsince⟩ := runRecipeEndpoint_since fmt json server recipe
        preview e (sampleLimitOf preview) h.state run.requests
      have hnext : (run.afterEndpoint e.endpoint.name _).Sound preview (parts ++ [entities]) :=
        h.afterEndpoint hsince
      rw [runEndpoints.eq_def] at hrun
      dsimp only at hrun
      split at hrun
      · cases hrun
      · obtain ⟨parts', hsound, hlength⟩ := ih hnext hrun
        refine ⟨entities :: parts', ?_, congrArg Nat.succ hlength⟩
        rw [List.append_assoc] at hsound
        exact hsound

/-- **A run that succeeds** has the first request of every endpoint. -/
theorem runRecipe_eq_ok {baseURL : Option Bytes} {plans : List (EndpointPlan R H)}
    {run : RecipeRun R} :
    runRecipe fmt json server recipe preview baseURL plans = .ok run ↔
      baseURL = none ∧ plans ≠ [] ∧ ∃ endpoints, initialRequests plans = .ok endpoints ∧
        runEndpoints fmt json server recipe preview ⟨.start, [], []⟩ endpoints = .ok run := by
  cases baseURL with
  | some message => simp [runRecipe]
  | none => simp only [runRecipe, ite_error_eq_ok, bind_eq_ok, mapError_eq_ok, true_and, ne_eq]

theorem initialRequests_length {plans : List (EndpointPlan R H)}
    {endpoints : List (EndpointRun R H)} (h : initialRequests plans = .ok endpoints) :
    endpoints.length = plans.length := by
  induction plans generalizing endpoints with
  | nil =>
      obtain rfl := Except.ok.inj h
      rfl
  | cons plan plans ih =>
      obtain ⟨request, -, h⟩ := bind_eq_ok.1 h
      obtain ⟨rest, hrest, h⟩ := bind_eq_ok.1 h
      obtain rfl := Except.ok.inj h
      exact congrArg Nat.succ (ih hrest)

/-- **What every run keeps**: the entities of all endpoints are distinct and within the limit, a
preview shows the first ones of each, and the bytes are those of what is taken. -/
theorem runRecipe_sound {baseURL : Option Bytes} {plans : List (EndpointPlan R H)}
    {run : RecipeRun R} (h : runRecipe fmt json server recipe preview baseURL plans = .ok run) :
    ∃ parts, run.Sound preview parts ∧ KeyNodup MappedEntity.key parts.flatten ∧
      parts.flatten.length ≤ maxRecipeEntities ∧
      recipeEntitiesSize parts.flatten + dependenciesSize run.state.dependencies ≤
        maxResponseBytes ∧
      parts.length = plans.length := by
  obtain ⟨-, -, endpoints, hinitial, hrun⟩ := runRecipe_eq_ok.1 h
  obtain ⟨parts, hsound, hlength⟩ := runEndpoints_sound RecipeRun.start_sound hrun
  rw [List.nil_append] at hsound
  refine ⟨parts, hsound, ?_, ?_, ?_, hlength.trans (initialRequests_length hinitial)⟩
  · have hdistinct := hsound.state.distinct
    rwa [hsound.seen] at hdistinct
  · have hcount := hsound.state.counted
    rw [hsound.seen, List.length_map] at hcount
    exact hcount ▸ hsound.state.entityLimit
  · exact (Nat.le_add_right _ _).trans (hsound.output ▸ hsound.state.outputLimit)

end Recipes

/-! ### A preview and a fetch -/

section Agreement

variable {R H : Type} {fmt : Formats} {json : JsonPackage} {server : List R → Turn H}
  {recipe : RecipeSpec RecipeAttribute}

/-- **The states of a preview and of a fetch agree**; the preview has charged at least as much. -/
structure RecipeRunState.Agrees (p f : RecipeRunState) : Prop where
  seenEntities : f.seenEntities = p.seenEntities
  seenDependencies : f.seenDependencies = p.seenDependencies
  entityCount : f.entityCount = p.entityCount
  dependencies : f.dependencies = p.dependencies
  output : f.mappedOutputBytes ≤ p.mappedOutputBytes

/-- What a preview and a fetch tell of an endpoint alike. -/
structure EndpointPreview.Agrees (p f : EndpointPreview) : Prop where
  items : f.items = p.items
  count : f.count = p.count
  skipped : f.skipped = p.skipped

/-- A preview and a fetch after the same pages of an endpoint, which has taken the same entities in
both. -/
structure PagesState.Agrees (base base' : RecipeRunState) (entities : List MappedEntity)
    (p f : PagesState R) : Prop where
  state : p.taken.state.Agrees f.taken.state
  preview : p.taken.preview.Agrees f.taken.preview
  statusCode : f.statusCode = p.statusCode
  requests : f.requests = p.requests
  previewed : p.taken.Since true maxPreviewSamples base entities
  fetched : f.taken.Since false 0 base' entities

variable {base base' : RecipeRunState} {entities : List MappedEntity} {e : EndpointRun R H}
  {left : ℕ} {request : R} {strategy : Strategy} {p f : PagesState R}

/-- What a preview takes of a page, a fetch takes. -/
theorem PagesState.Agrees.takenAt (h : p.Agrees base base' entities f) {page : FetchedPage H}
    {mapped : MappedPage}
    (htaken : TakenAt fmt json server recipe true e left request p page mapped) :
    TakenAt fmt json server recipe false e left request f page mapped := by
  obtain ⟨hlast, hentities, houtput⟩ := capError_eq_none.1 htaken.within
  refine ⟨h.requests ▸ htaken.before, h.requests ▸ htaken.fetched, ?_, capError_eq_none.2
    ⟨hlast, h.state.entityCount ▸ hentities, ?_⟩⟩
  · rw [h.state.seenEntities]
    exact (mapEndpointBudgeted_ok htaken.maps).2.1 _ h.state.output
  · have hle := h.state.output
    rw [h.state.seenDependencies]
    simp only [if_true, Bool.false_eq_true, if_false, dependenciesSize_nil] at houtput ⊢
    omega

/-- A page that both take leaves them in agreement. -/
theorem PagesState.Agrees.take (h : p.Agrees base base' entities f) {page : FetchedPage H}
    {mapped : MappedPage}
    (htaken : TakenAt fmt json server recipe true e left request p page mapped) :
    (p.take true maxPreviewSamples request page mapped).Agrees base base'
      (entities ++ mapped.entities) (f.take false 0 request page mapped) where
  state := by
    refine ⟨?_, ?_, ?_, ?_, ?_⟩
    · simp [PagesState.take, h.state.seenEntities]
    · simp [PagesState.take, h.state.seenDependencies]
    · simp [PagesState.take, h.state.entityCount]
    · simp [PagesState.take, h.state.seenDependencies, h.state.dependencies]
    · have := h.state.output
      simp only [PagesState.take, commitPage_mappedOutputBytes, h.state.seenDependencies, if_true,
        Bool.false_eq_true, if_false, dependenciesSize_nil]
      omega
  preview := by
    refine ⟨?_, ?_, ?_⟩ <;>
      simp [PagesState.take, h.preview.items, h.preview.count, h.preview.skipped]
  statusCode := rfl
  requests := congrArg (· ++ [request]) h.requests
  previewed := h.previewed.commitPage (mapEndpointBudgeted_ok htaken.maps).1 htaken.within
  fetched := h.fetched.commitPage (mapEndpointBudgeted_ok (h.takenAt htaken).maps).1
    (h.takenAt htaken).within

/-- **The pages of an endpoint that a preview takes without an error, a fetch takes.** -/
theorem runPages_agrees (h : p.Agrees base base' entities f) {p' : PagesState R}
    (hrun : runPages fmt json server recipe true e maxPreviewSamples left request strategy p =
      (p', none)) :
    ∃ f' entities', runPages fmt json server recipe false e 0 left request strategy f =
      (f', none) ∧ p'.Agrees base base' entities' f' := by
  induction left generalizing request strategy p f entities with
  | zero =>
      obtain ⟨page, mapped, htaken⟩ | ⟨err, heq | heq⟩ :=
        runPages_turn fmt json server recipe true e maxPreviewSamples 0 request
          strategy p
      · rw [runPages_of_taken htaken] at hrun
        rw [runPages_of_taken (h.takenAt htaken), h.requests]
        dsimp only at hrun ⊢
        split at hrun
        · cases hrun
        · split at hrun <;> cases hrun
          exact ⟨_, _, rfl, h.take htaken⟩
      · rw [heq] at hrun
        cases hrun
      · rw [heq] at hrun
        cases hrun
  | succ left ih =>
      obtain ⟨page, mapped, htaken⟩ | ⟨err, heq | heq⟩ :=
        runPages_turn fmt json server recipe true e maxPreviewSamples (left + 1) request
          strategy p
      · rw [runPages_of_taken htaken] at hrun
        rw [runPages_of_taken (h.takenAt htaken), h.requests]
        dsimp only at hrun ⊢
        split at hrun
        · cases hrun
        · split at hrun
          · cases hrun
          · cases hrun
            exact ⟨_, _, rfl, h.take htaken⟩
          · exact ih (h.take htaken) hrun
      · rw [heq] at hrun
        cases hrun
      · rw [heq] at hrun
        cases hrun

/-- What a preview and a fetch tell of an endpoint, which has taken these entities in both. -/
structure EndpointReport.Agrees (p f : EndpointReport) : Prop where
  name : f.name = p.name
  statusCode : f.statusCode = p.statusCode
  preview : p.preview.Agrees f.preview

/-- A preview and a fetch after the same endpoints. -/
structure RecipeRun.Agrees (p f : RecipeRun R) (parts : List (List MappedEntity)) : Prop where
  state : p.state.Agrees f.state
  requests : f.requests = p.requests
  reports : List.Forall₂ EndpointReport.Agrees p.reports f.reports
  previewed : p.Sound true parts
  fetched : f.Sound false parts

/-- **An endpoint that a preview runs without an error, a fetch runs.** -/
theorem runRecipeEndpoint_agrees {run run' : RecipeRun R} {parts : List (List MappedEntity)}
    (h : run.Agrees run' parts) {p' : PagesState R}
    (hrun : runRecipeEndpoint fmt json server recipe true e maxPreviewSamples run.state
      run.requests = (p', none)) :
    ∃ f' entities, runRecipeEndpoint fmt json server recipe false e 0 run'.state run'.requests =
      (f', none) ∧ p'.Agrees run.state run'.state entities f' := by
  rw [runRecipeEndpoint] at hrun ⊢
  cases hnew : Strategy.new e.pkg e.initial e.endpoint.pagination with
  | error cause =>
      rw [hnew] at hrun
      cases hrun
  | ok strategy =>
      rw [hnew] at hrun
      exact runPages_agrees (p := ⟨⟨run.state, ⟨0, 0, 0, [], []⟩, []⟩, 0, run.requests⟩)
        (f := ⟨⟨run'.state, ⟨0, 0, 0, [], []⟩, []⟩, 0, run'.requests⟩)
        ⟨h.state, ⟨rfl, rfl, rfl⟩, rfl, h.requests, Taken.since_start _ h.previewed.state,
          Taken.since_start _ h.fetched.state⟩ hrun

theorem RecipeRun.Agrees.afterEndpoint {run run' : RecipeRun R}
    {parts : List (List MappedEntity)} (h : run.Agrees run' parts)
    (hpages : p.Agrees run.state run'.state entities f) (name : Bytes) :
    (run.afterEndpoint name (p, none)).Agrees (run'.afterEndpoint name (f, none))
      (parts ++ [entities]) where
  state := hpages.state
  requests := hpages.requests
  reports := List.rel_append h.reports (.cons ⟨rfl, hpages.statusCode, hpages.preview⟩ .nil)
  previewed := h.previewed.afterEndpoint hpages.previewed
  fetched := h.fetched.afterEndpoint hpages.fetched

/-- A preview goes on after every endpoint. -/
theorem runEndpoints_preview (run : RecipeRun R) (e : EndpointRun R H)
    (rest : List (EndpointRun R H)) :
    runEndpoints fmt json server recipe true run (e :: rest) =
      runEndpoints fmt json server recipe true (run.afterEndpoint e.endpoint.name
        (runRecipeEndpoint fmt json server recipe true e maxPreviewSamples run.state
          run.requests)) rest := by
  rw [runEndpoints.eq_def]
  dsimp only
  split
  · cases ‹true = false›
  · rfl

theorem runEndpoints_fetch {run : RecipeRun R} {e : EndpointRun R H} {s : PagesState R}
    (h : runRecipeEndpoint fmt json server recipe false e 0 run.state run.requests = (s, none))
    (rest : List (EndpointRun R H)) :
    runEndpoints fmt json server recipe false run (e :: rest) =
      runEndpoints fmt json server recipe false
        (run.afterEndpoint e.endpoint.name (s, none)) rest := by
  rw [runEndpoints.eq_def]
  dsimp only
  simp only [Bool.false_eq_true, if_false, h]
  rfl

/-- The reports of a preview stay in it. -/
theorem mem_reports_of_runEndpoints {run result : RecipeRun R} {endpoints : List (EndpointRun R H)}
    (hrun : runEndpoints fmt json server recipe true run endpoints = .ok result)
    {r : EndpointReport} (hr : r ∈ run.reports) : r ∈ result.reports := by
  induction endpoints generalizing run with
  | nil =>
      obtain rfl := Except.ok.inj hrun
      exact hr
  | cons e endpoints ih =>
      rw [runEndpoints_preview] at hrun
      exact ih hrun (List.mem_append_left _ hr)

theorem runEndpoints_agrees {run run' result : RecipeRun R} {parts : List (List MappedEntity)}
    {endpoints : List (EndpointRun R H)} (h : run.Agrees run' parts)
    (hrun : runEndpoints fmt json server recipe true run endpoints = .ok result)
    (hok : ∀ r ∈ result.reports, r.error = none) :
    ∃ fetched parts', runEndpoints fmt json server recipe false run' endpoints = .ok fetched ∧
      result.Agrees fetched parts' := by
  induction endpoints generalizing run run' parts with
  | nil =>
      obtain rfl := Except.ok.inj hrun
      exact ⟨run', parts, rfl, h⟩
  | cons e endpoints ih =>
      rw [runEndpoints_preview] at hrun
      obtain ⟨p, err, hresult⟩ : ∃ p err, runRecipeEndpoint fmt json server recipe true e
          maxPreviewSamples run.state run.requests = (p, err) := ⟨_, _, rfl⟩
      rw [hresult] at hrun
      obtain rfl : err = none := hok _ (mem_reports_of_runEndpoints hrun
        (List.mem_append_right _ (List.mem_singleton_self _)))
      obtain ⟨f, entities, hfetch, hpages⟩ := runRecipeEndpoint_agrees h hresult
      obtain ⟨fetched, parts', hfetched, hagrees⟩ :=
        ih (h.afterEndpoint hpages e.endpoint.name) hrun
      exact ⟨fetched, parts', (runEndpoints_fetch hfetch endpoints).trans hfetched, hagrees⟩

theorem samples_of_reports {reports : List EndpointReport} {parts : List (List MappedEntity)}
    (h : List.Forall₂ (EndpointReport.Of true) reports parts) :
    reports.map (·.preview.samples) = parts.map (·.take maxPreviewSamples) := by
  induction h with
  | nil => rfl
  | cons hreport _ ih => rw [List.map_cons, List.map_cons, ih, hreport.samples, if_pos rfl]

/-- **A preview without errors tells what a fetch does**, if the server answers the same: it
succeeds with the same requests and dependencies and the same items and counts of each endpoint, and
the samples of each endpoint are the first of the entities that the fetch has of it. -/
theorem fetch_of_preview {baseURL : Option Bytes} {plans : List (EndpointPlan R H)}
    {run : RecipeRun R} (hrun : runRecipe fmt json server recipe true baseURL plans = .ok run)
    (hok : ∀ r ∈ run.reports, r.error = none) :
    ∃ (fetched : RecipeRun R) (parts : List (List MappedEntity)),
      runRecipe fmt json server recipe false baseURL plans = .ok fetched ∧
      fetched.requests = run.requests ∧ fetched.state.dependencies = run.state.dependencies ∧
      List.Forall₂ EndpointReport.Agrees run.reports fetched.reports ∧
      fetched.state.entities = parts.flatten ∧
      List.Forall₂ (EndpointReport.Of false) fetched.reports parts ∧
      List.Forall₂ (EndpointReport.Of true) run.reports parts ∧
      run.reports.map (·.preview.samples) = parts.map (·.take maxPreviewSamples) := by
  have hstart : RecipeRun.Agrees (⟨.start, [], []⟩ : RecipeRun R) ⟨.start, [], []⟩ [] :=
    ⟨⟨rfl, rfl, rfl, rfl, le_rfl⟩, rfl, .nil, RecipeRun.start_sound, RecipeRun.start_sound⟩
  obtain ⟨hbase, hplans, endpoints, hinitial, hrun⟩ := runRecipe_eq_ok.1 hrun
  obtain ⟨fetched, parts, hfetched, hagrees⟩ := runEndpoints_agrees hstart hrun hok
  exact ⟨fetched, parts, runRecipe_eq_ok.2 ⟨hbase, hplans, endpoints, hinitial, hfetched⟩,
    hagrees.requests, hagrees.state.dependencies, hagrees.reports, hagrees.fetched.kept,
    hagrees.fetched.reports, hagrees.previewed.reports,
    samples_of_reports hagrees.previewed.reports⟩

end Agreement

/-! ### An endpoint of two pages -/

/-- An item is identified by itself, and the first page has a next one. -/
def twoPagesJson : JsonPackage where
  pathValue body path :=
    if path = [105] then .string body
    else if path = [110] ∧ body = [49] then .string [50]
    else .missing
  items body _ := some [body]
  validBytes _ := true
  valid _ := true

def twoPagesEndpoint : EndpointPlan Bytes Unit where
  endpoint := ⟨bytes "hosts", bytes "/hosts", [], [], some ⟨.cursor, bytes "after", [],
    ⟨0, by decide, by decide⟩, ⟨0, by decide, by decide⟩, [110], [], false, true, false, false,
    false⟩,
    ⟨bytes "host", [], [105], [], [], [], [], []⟩, []⟩
  pkg := ⟨fun _ cursor => .ok cursor, .ok, fun request _ => request, id, fun _ => none⟩
  request := .ok []

def twoPagesFormats : Formats := ⟨fun _ _ => [], fun _ => ⟨[48], by decide, by decide⟩, id⟩

/-- The first request has no cursor. -/
def twoPagesServer (requests : List Bytes) : Turn Unit :=
  ⟨none, .response 200 () (if requests = [[]] then [49] else [50]) none none, none⟩

def twoPagesRecipe : RecipeSpec RecipeAttribute := ⟨⟨.none, [], []⟩, [], []⟩

example : (runRecipe twoPagesFormats twoPagesJson twoPagesServer twoPagesRecipe true
    none [twoPagesEndpoint]).toOption.map (·.requests) = some [[], [50]] := by
  decide +kernel

theorem twoPages_run : ∃ run, runRecipe twoPagesFormats twoPagesJson twoPagesServer twoPagesRecipe
    true none [twoPagesEndpoint] = .ok run ∧ ∀ r ∈ run.reports, r.error = none := by
  have hreports : (runRecipe twoPagesFormats twoPagesJson twoPagesServer twoPagesRecipe true
      none [twoPagesEndpoint]).toOption.map (fun run => run.reports.map (·.error)) = some [none] := by
    decide +kernel
  obtain ⟨run, hrun, herrors⟩ := Option.map_eq_some_iff.1 hreports
  refine ⟨run, ?_, fun r hr => ?_⟩
  · cases hresult : runRecipe twoPagesFormats twoPagesJson twoPagesServer twoPagesRecipe true
      none [twoPagesEndpoint] with
    | error err =>
        rw [hresult] at hrun
        cases hrun
    | ok result =>
        rw [hresult] at hrun
        exact congrArg _ (Option.some.inj hrun)
  · have hmem := List.mem_map_of_mem (f := EndpointReport.error) hr
    rw [herrors] at hmem
    exact List.mem_singleton.1 hmem

theorem runRecipe_sound_two_pages :
    ∃ run parts, runRecipe twoPagesFormats twoPagesJson twoPagesServer twoPagesRecipe true
        none [twoPagesEndpoint] = .ok run ∧
      run.Sound true parts ∧ KeyNodup MappedEntity.key parts.flatten ∧ parts.length = 1 := by
  obtain ⟨run, hrun, -⟩ := twoPages_run
  obtain ⟨parts, hsound, hdistinct, -, -, hlength⟩ := runRecipe_sound hrun
  exact ⟨run, parts, hrun, hsound, hdistinct, hlength⟩

theorem fetch_of_preview_two_pages :
    ∃ fetched, runRecipe twoPagesFormats twoPagesJson twoPagesServer twoPagesRecipe false
      none [twoPagesEndpoint] = .ok fetched := by
  obtain ⟨run, hrun, hok⟩ := twoPages_run
  obtain ⟨fetched, -, hfetched, -⟩ := fetch_of_preview hrun hok
  exact ⟨fetched, hfetched⟩

end WiseLabz.Recipe
