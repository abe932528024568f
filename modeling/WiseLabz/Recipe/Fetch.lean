/-
**The run of a recipe.**

The pages of an endpoint are requested one after the other and each is mapped as a whole: it is
taken into the state of the run, or the endpoint fails and leaves nothing of it there.  The
pagination of the endpoint says from a page which request is next.  A preview runs all endpoints and
keeps a few samples of each; a fetch stops at the first endpoint that fails.

Main definitions:

* `Recipe.mapRecipeEntity`, `Recipe.mapEndpointBudgeted` — what a page maps to;
* `Recipe.acceptPage` — **a page is taken into the run**, or not;
* `Recipe.Strategy.next` — the next request;
* `Recipe.runPages`, `Recipe.runRecipeEndpoint` — **the pages of an endpoint**;
* `Recipe.runEndpoints` — the endpoints of a recipe.
-/

import WiseLabz.Lib.Fallible
import WiseLabz.Recipe.Attributes

set_option relaxedAutoImplicit false
set_option autoImplicit false

namespace WiseLabz.Recipe

open Lib

/-! ### Limits -/

def maxRecipePages : ℕ := 100

def maxRecipeEntities : ℕ := 10000

def maxPreviewSamples : ℕ := 20

/-- How long a cursor or a next link may be. -/
def maxRecipePaginationValueBytes : ℕ := 8192

/-- How much of a response is read, and how much a run maps. -/
def maxResponseBytes : ℕ := 10485760

/-! ### What a page maps to -/

/-- An entity of a snapshot, as a recipe maps it. -/
structure MappedEntity where
  kind : Bytes
  name : Bytes
  externalID : Bytes
  ip : Bytes
  hostname : Bytes
  mac : Bytes
  aliases : List Bytes
  attributes : List (Bytes × RecipeValue)

/-- The bytes that an attribute adds to a snapshot. -/
def recipeValueSize : RecipeValue → ℕ
  | .string s => s.length
  | .number text => text.length
  | .strings items => (items.map List.length).sum
  | _ => 8

def attributesSize (attributes : List (Bytes × RecipeValue)) : ℕ :=
  (attributes.map fun a => a.1.length + recipeValueSize a.2).sum

/-- The bytes of an entity without its attributes. -/
def MappedEntity.fieldsSize (e : MappedEntity) : ℕ :=
  e.kind.length + e.name.length + e.externalID.length + e.ip.length + e.hostname.length +
    e.mac.length + (e.aliases.map List.length).sum

def MappedEntity.size (e : MappedEntity) : ℕ := e.fieldsSize + attributesSize e.attributes

def recipeEntitiesSize (entities : List MappedEntity) : ℕ := (entities.map MappedEntity.size).sum

/-- The key by which an entity is known. -/
def MappedEntity.key (e : MappedEntity) : Bytes := e.kind ++ 0 :: e.externalID

def ServiceDependency.key (d : ServiceDependency) : Bytes := d.kind ++ 0 :: d.name

def ServiceDependency.size (d : ServiceDependency) : ℕ := d.kind.length + d.name.length

/-- What a page maps to; `items` is the number of its items. -/
structure MappedPage where
  entities : List MappedEntity
  dependencies : List ServiceDependency
  items : ℕ
  skipped : ℕ

/-- How JSON is checked and read. -/
structure JsonPackage where
  /-- `jsonPathValue`. -/
  pathValue : Bytes → Bytes → PathResult
  /-- The texts of the items of the list that a path selects, if it selects a list. -/
  items : Bytes → Bytes → Option (List Bytes)
  /-- `gjson.ValidBytes`. -/
  validBytes : Bytes → Bool
  /-- `json.Valid`. -/
  valid : Bytes → Bool

section Mapping

variable (fmt : Formats) (json : JsonPackage)

/-- The text of a location in an endpoint. -/
def endpointText (name rest : Bytes) : Bytes :=
  bytes "endpoint " ++ fmt.quote name ++ bytes " " ++ rest

/-- `recipeBudget.add`. -/
def budgetAdd (endpoint : Bytes) (limit used n : ℕ) : Except Bytes ℕ :=
  if limit < used + n then
    .error (endpointText fmt endpoint
      (bytes "maps more than " ++ bytes (toString limit) ++ bytes " bytes of data"))
  else .ok (used + n)

/-- The strings that a path selects; an absent value is `none`. -/
def recipePathStrings (data path : Bytes) : Except Bytes (Option (List Bytes)) :=
  let texts : List PathResult → Except Bytes (List Bytes) := fun values =>
    values.foldr (fun value rest => do
      let text ← match value with
        | .null => .ok []
        | value => recipeGJSONString value
      let texts ← rest
      .ok (if text = [] then texts else text :: texts)) (.ok [])
  match json.pathValue data path with
  | .missing => .ok none
  | .null => .ok none
  | result => (texts result.items).map some

/-- A field of an entity that has a path. -/
def optionalField (endpoint field item path : Bytes) : Except Bytes Bytes :=
  if path = [] then .ok []
  else
    ((recipePathString json.pathValue item path).mapError fun text =>
      endpointText fmt endpoint (bytes "entity " ++ field ++ bytes " path: " ++ text)).map
      (·.getD [])

/-- The aliases of an entity, if they have a path. -/
def optionalAliases (endpoint item path : Bytes) : Except Bytes (List Bytes) :=
  if path = [] then .ok []
  else
    ((recipePathStrings json item path).mapError fun text =>
      endpointText fmt endpoint (bytes "entity aliases path: " ++ text)).map (·.getD [])

/-- The attributes of an entity, in the order of their names. -/
def mapAttributes (endpoint item : Bytes) (limit : ℕ) :
    ℕ → List (Bytes × RecipeAttribute) → Except Bytes (ℕ × List (Bytes × RecipeValue))
  | used, [] => .ok (used, [])
  | used, (name, attr) :: rest => do
      let value ← (mapRecipeAttribute json.pathValue fmt item attr limit).mapError fun err =>
        endpointText fmt endpoint
          (bytes "attribute " ++ fmt.quote name ++ bytes ": " ++ err.text fmt)
      match value with
      | none => mapAttributes endpoint item limit used rest
      | some value =>
          let used ← budgetAdd fmt endpoint limit used (name.length + recipeValueSize value)
          let (used, values) ← mapAttributes endpoint item limit used rest
          .ok (used, (name, value) :: values)

/-- **The entity of an item** and the bytes used after it; an item without an identifier is
skipped. -/
def mapRecipeEntity (endpoint : RecipeEndpoint RecipeAttribute) (item : Bytes) (limit used : ℕ) :
    Except Bytes (ℕ × Option MappedEntity) := do
  let config := endpoint.entity
  let externalID ← (recipePathString json.pathValue item config.externalID).mapError fun text =>
    endpointText fmt endpoint.name (bytes "entity external_id path: " ++ text)
  match externalID with
  | none => .ok (used, none)
  | some externalID =>
      if trimSpace externalID = [] then .ok (used, none)
      else
        let name ← (recipePathString json.pathValue item config.name).mapError fun text =>
          endpointText fmt endpoint.name (bytes "entity name path: " ++ text)
        let ip ← optionalField fmt json endpoint.name (bytes "ip") item config.ip
        let hostname ←
          optionalField fmt json endpoint.name (bytes "hostname") item config.hostname
        let mac ← optionalField fmt json endpoint.name (bytes "mac") item config.mac
        let aliases ← optionalAliases fmt json endpoint.name item config.aliases
        let entity : MappedEntity :=
          ⟨config.kind, name.getD [], externalID, ip, hostname, mac, aliases, []⟩
        let used ← budgetAdd fmt endpoint.name limit used entity.fieldsSize
        let (used, attributes) ← mapAttributes fmt json endpoint.name item limit used
          (sortedEntries config.attributes)
        .ok (used, some { entity with attributes := attributes })

/-- The entities of the items, with the number of items that are skipped; `known` are the keys that
may not come again. -/
def mapItems (endpoint : RecipeEndpoint RecipeAttribute) (limit : ℕ) :
    List Bytes → ℕ → List Bytes → Except Bytes (List MappedEntity × ℕ)
  | _, _, [] => .ok ([], 0)
  | known, used, item :: rest => do
      match ← mapRecipeEntity fmt json endpoint item limit used with
      | (used, none) =>
          let (entities, skipped) ← mapItems endpoint limit known used rest
          .ok (entities, skipped + 1)
      | (used, some entity) =>
          if entity.key ∈ known then
            .error (endpointText fmt endpoint.name (bytes "has duplicate identifier " ++
              fmt.quote entity.externalID ++ bytes " for kind " ++ fmt.quote entity.kind))
          else
            let (entities, skipped) ← mapItems endpoint limit (entity.key :: known) used rest
            .ok (entity :: entities, skipped)

/-- **What a page maps to**; `seen` are the keys of the entities before it, and `used` the bytes. -/
def mapEndpointBudgeted (recipe : RecipeSpec RecipeAttribute)
    (endpoint : RecipeEndpoint RecipeAttribute) (body : Bytes) (seen : List Bytes)
    (limit used : ℕ) : Except Bytes MappedPage :=
  if json.validBytes body = false then
    .error (bytes "endpoint " ++ fmt.quote endpoint.name ++ bytes ": response is not valid JSON")
  else
  match json.items body endpoint.items with
  | none => .error (endpointText fmt endpoint.name (bytes "items path " ++
      fmt.quote endpoint.items ++ bytes " did not select a list"))
  | some items => do
      let (entities, skipped) ← mapItems fmt json endpoint limit seen used items
      let dependencies ←
        addRecipeDependencies json.pathValue fmt body endpoint.name 0 [] recipe.dependencies
      let dependencies ← addRecipeDependencies json.pathValue fmt body endpoint.name 0 dependencies
        endpoint.dependencies
      .ok ⟨entities, dependencies.mergeSort fun d e => decide (d.key ≤ e.key), items.length,
        skipped⟩

end Mapping

/-! ### The state of a run -/

/-- What the pages and the endpoints of a run share. -/
structure RecipeRunState where
  seenEntities : List Bytes
  seenDependencies : List Bytes
  entityCount : ℕ
  mappedOutputBytes : ℕ
  entities : List MappedEntity
  dependencies : List ServiceDependency

/-- The state before the first page. -/
def RecipeRunState.start : RecipeRunState := ⟨[], [], 0, 0, [], []⟩

/-- What a run tells of an endpoint. -/
structure EndpointPreview where
  items : ℕ
  count : ℕ
  skipped : ℕ
  samples : List MappedEntity
  dependencies : List ServiceDependency

/-- What a page changes. -/
structure Taken where
  state : RecipeRunState
  preview : EndpointPreview
  /-- The keys of the dependencies of the endpoint, which only a preview keeps. -/
  endpointDependencies : List Bytes

/-- Why a page or a request fails. -/
inductive FetchCause
  | transport (text : Bytes)
  | status (code : ℕ)
  | malformed (text : Bytes)
  | close (text : Bytes)
  | pageLimit
  | entityLimit
  | outputLimit
  | integerLimit
  | cursorPath (text : Bytes)
  | cursorTooLong
  | cursorStuck
  | cursorRepeated
  | linkNotString
  | linkTooLong
  | linkRepeated
  | request (text : Bytes)
  | unsupported (type : Bytes)
  deriving DecidableEq, Repr

def FetchCause.text (fmt : Formats) : FetchCause → Bytes
  | .transport text => text
  | .status code =>
      if code < 400 then
        bytes "API returned " ++ bytes (toString code) ++ bytes " (expected a 2xx status)"
      else
        (if code = 401 ∨ code = 403 then bytes "auth error: "
        else if code = 502 ∨ code = 503 ∨ code = 504 then bytes "service unavailable: "
        else []) ++ bytes "API returned " ++ bytes (toString code) ++ bytes ": "
  | .malformed text => bytes "malformed response: " ++ text
  | .close text => bytes "close response body: " ++ text
  | .pageLimit => bytes "pagination exceeds the " ++ bytes (toString maxRecipePages) ++
      bytes "-page limit"
  | .entityLimit => bytes "recipe exceeds the " ++ bytes (toString maxRecipeEntities) ++
      bytes "-entity limit"
  | .outputLimit => bytes "recipe maps more than " ++ bytes (toString maxResponseBytes) ++
      bytes " bytes of data"
  | .integerLimit => bytes "pagination value exceeds the integer limit"
  | .cursorPath text => bytes "cursor path did not resolve to a scalar: " ++ text
  | .cursorTooLong => bytes "cursor exceeds the " ++
      bytes (toString maxRecipePaginationValueBytes) ++ bytes "-byte limit"
  | .cursorStuck => bytes "cursor did not advance"
  | .cursorRepeated => bytes "cursor repeated"
  | .linkNotString => bytes "next link path must resolve to a string"
  | .linkTooLong => bytes "next link exceeds the " ++
      bytes (toString maxRecipePaginationValueBytes) ++ bytes "-byte limit"
  | .linkRepeated => bytes "next link repeated"
  | .request text => text
  | .unsupported type => bytes "unsupported pagination type " ++ fmt.quote type

/-- A failed endpoint, with the page if it has pages. -/
structure EndpointError where
  endpoint : Bytes
  page : Option ℕ
  cause : FetchCause
  deriving DecidableEq, Repr

/-- `recipeEndpointError`. -/
def EndpointError.text (fmt : Formats) (e : EndpointError) : Bytes :=
  bytes "endpoint " ++ fmt.quote e.endpoint ++ bytes ": " ++
    (match e.page with
    | some page => bytes "page " ++ bytes (toString page) ++ bytes ": "
    | none => []) ++ e.cause.text fmt

/-! ### Accepting a page -/

/-- The bytes that the dependencies of a page add. -/
def dependencyBytes (preview : Bool) (taken : Taken) (d : ServiceDependency) : ℕ :=
  (if d.key ∈ taken.state.seenDependencies then 0 else d.size) +
    if preview = true ∧ d.key ∉ taken.endpointDependencies then d.size else 0

def pageOutputBytes (preview : Bool) (taken : Taken) (mapped : MappedPage) : ℕ :=
  recipeEntitiesSize mapped.entities + (mapped.dependencies.map (dependencyBytes preview taken)).sum

/-- Why a mapped page is not taken. -/
def capError (preview : Bool) (pageNumber : ℕ) (taken : Taken) (mapped : MappedPage) :
    Option FetchCause :=
  if maxRecipePages < pageNumber ∧ 0 < mapped.items then some .pageLimit
  else if maxRecipeEntities < taken.state.entityCount + mapped.entities.length then
    some .entityLimit
  else if maxResponseBytes <
      taken.state.mappedOutputBytes + pageOutputBytes preview taken mapped then
    some .outputLimit
  else none

/-- One dependency is taken into the run. -/
def takeDependency (preview : Bool) (taken : Taken) (d : ServiceDependency) : Taken :=
  let taken :=
    if preview = true ∧ d.key ∉ taken.endpointDependencies then
      { taken with
        endpointDependencies := taken.endpointDependencies ++ [d.key]
        preview := { taken.preview with dependencies := taken.preview.dependencies ++ [d] } }
    else taken
  if d.key ∈ taken.state.seenDependencies then taken
  else
    { taken with state := { taken.state with
        seenDependencies := taken.state.seenDependencies ++ [d.key]
        dependencies := taken.state.dependencies ++ [d] } }

/-- The counts and the entities of a page are taken into the run. -/
def takeEntities (preview : Bool) (sampleLimit : ℕ) (taken : Taken) (mapped : MappedPage) : Taken :=
  { taken with
    state := { taken.state with
      mappedOutputBytes := taken.state.mappedOutputBytes + pageOutputBytes preview taken mapped
      entityCount := taken.state.entityCount + mapped.entities.length
      entities :=
        if preview then taken.state.entities else taken.state.entities ++ mapped.entities }
    preview := { taken.preview with
      items := taken.preview.items + mapped.items
      count := taken.preview.count + mapped.entities.length
      skipped := taken.preview.skipped + mapped.skipped
      samples :=
        if preview then
          taken.preview.samples ++
            mapped.entities.take (sampleLimit - taken.preview.samples.length)
        else taken.preview.samples } }

/-- **A page is taken into the run.** -/
def takePage (preview : Bool) (sampleLimit : ℕ) (taken : Taken) (mapped : MappedPage) : Taken :=
  mapped.dependencies.foldl (takeDependency preview) (takeEntities preview sampleLimit taken mapped)

/-- The keys of the entities of a mapped page are known. -/
def Taken.know (taken : Taken) (mapped : MappedPage) : Taken :=
  { taken with state := { taken.state with
      seenEntities := taken.state.seenEntities ++ mapped.entities.map MappedEntity.key } }

/-- `rollbackRecipeEntities`. -/
def rollbackRecipeEntities (taken : Taken) (entities : List MappedEntity) : Taken :=
  { taken with state := { taken.state with
      seenEntities := taken.state.seenEntities.filter fun key =>
        key ∉ entities.map MappedEntity.key } }

section Pages

variable (fmt : Formats) (json : JsonPackage)

/-- **A page is mapped and taken**, or the run keeps what it had.  The keys of its entities are
known as soon as it is mapped, and forgotten if it is not taken. -/
def acceptPage (recipe : RecipeSpec RecipeAttribute) (endpoint : RecipeEndpoint RecipeAttribute)
    (preview : Bool) (sampleLimit pageNumber : ℕ) (body : Bytes) (taken : Taken) :
    Taken × Except FetchCause ℕ :=
  match mapEndpointBudgeted fmt json recipe endpoint body
      taken.state.seenEntities maxResponseBytes taken.state.mappedOutputBytes with
  | .error text => (taken, .error (.malformed text))
  | .ok mapped =>
      match capError preview pageNumber (taken.know mapped) mapped with
      | some cause => (rollbackRecipeEntities (taken.know mapped) mapped.entities, .error cause)
      | none => (takePage preview sampleLimit (taken.know mapped) mapped, .ok mapped.items)

end Pages

/-! ### Requests and responses -/

/-- The answer to a request. -/
inductive Reply (H : Type)
  /-- No response, by the text of the error. -/
  | failed (text : Bytes)
  | response (status : ℕ) (header : H) (body : Bytes) (readError closeError : Option Bytes)

/-- A response that is read and whose body is valid JSON. -/
structure FetchedPage (H : Type) where
  status : ℕ
  header : H
  body : Bytes

/-- What a server and the caller of a run do at a request: the caller may have given up before the
request or after its page. -/
structure Turn (H : Type) where
  before : Option Bytes
  reply : Reply H
  after : Option Bytes

/-- How the requests of an endpoint are built and read, over its connection and its fixed parts. -/
structure RequestPackage (R H : Type) where
  /-- `buildRecipeRequestForPaginationValue`, from the request before. -/
  forValue : R → Bytes → Except Bytes R
  /-- `buildRecipeRequestForNextLink`. -/
  forLink : Bytes → Except Bytes R
  /-- `URL.Query().Get`. -/
  queryParam : R → Bytes → Bytes
  /-- `recipeRequestURLKey`. -/
  urlKey : R → Bytes
  /-- `recipeNextLink`. -/
  nextLink : H → Option Bytes

section Requests

variable {R H : Type} (json : JsonPackage)

/-- `fetchRecipePage`; a run that is given up while a body is read fails for that. -/
def fetchRecipePage (turn : Turn H) : Except FetchCause (FetchedPage H) :=
  match turn.reply with
  | .failed text => .error (.transport text)
  | .response status header body readError closeError =>
      if 400 ≤ status ∨ ¬ (200 ≤ status ∧ status < 300) then .error (.status status)
      else
        match readError with
        | some text =>
            .error (match turn.after with
              | some cancelled => .transport cancelled
              | none => .malformed text)
        | none =>
            match closeError with
            | some text => .error (.close text)
            | none =>
                if json.valid body then .ok ⟨status, header, body⟩
                else .error (.malformed (bytes "response is not valid JSON"))

/-- How an endpoint asks for its next page, with what it has sent. -/
inductive Strategy
  | singlePage
  | numeric (value step : ℤ)
  | cursor (sent : Bytes) (seen : List Bytes) (path : Bytes)
  | nextLink (seen : List Bytes) (linkHeader : Bool) (path : Bytes)

/-- `newRecipePaginationStrategy`. -/
def Strategy.new (pkg : RequestPackage R H) (initial : R) :
    Option RecipePagination → Except FetchCause Strategy
  | none => .ok .singlePage
  | some p =>
      match p.type with
      | .page => .ok (.numeric (if p.hasStart then p.start.val else 1) 1)
      | .offset => .ok (.numeric p.start.val p.size.val)
      | .cursor =>
          let initialCursor := pkg.queryParam initial p.param
          .ok (.cursor initialCursor (if initialCursor = [] then [] else [initialCursor])
            p.cursorPath)
      | .nextLink => .ok (.nextLink [pkg.urlKey initial] p.linkHeader p.nextPath)
      | .other raw => .error (.unsupported raw)

/-- The link of a page to the next one. -/
def pageLink (pkg : RequestPackage R H) (linkHeader : Bool) (path : Bytes) (page : FetchedPage H) :
    Except FetchCause (Option Bytes) :=
  if linkHeader then .ok (pkg.nextLink page.header)
  else
    match json.pathValue page.body path with
    | .missing => .ok none
    | .null => .ok none
    | .string link => .ok (some link)
    | _ => .error .linkNotString

/-- **The next request**, if there is one, after a page with some items. -/
def Strategy.next (pkg : RequestPackage R H) (previous : R) (page : FetchedPage H) (items : ℕ) :
    Strategy → Except FetchCause (Option (R × Strategy))
  | .singlePage => .ok none
  | .numeric value step =>
      if items = 0 then .ok none
      else if maxInt - step < value then .error .integerLimit
      else do
        let request ←
          (pkg.forValue previous (bytes (toString (value + step)))).mapError .request
        .ok (some (request, .numeric (value + step) step))
  | .cursor sent seen path => do
      let cursor ← (recipePathString json.pathValue page.body path).mapError .cursorPath
      match cursor with
      | none => .ok none
      | some cursor =>
          if cursor = [] then .ok none
          else if maxRecipePaginationValueBytes < cursor.length then .error .cursorTooLong
          else if cursor = sent then .error .cursorStuck
          else if cursor ∈ seen then .error .cursorRepeated
          else do
            let request ← (pkg.forValue previous cursor).mapError .request
            .ok (some (request, .cursor cursor (cursor :: seen) path))
  | .nextLink seen linkHeader path => do
      match ← pageLink json pkg linkHeader path page with
      | none => .ok none
      | some link =>
          if trimSpace link = [] then .ok none
          else if maxRecipePaginationValueBytes < (trimSpace link).length then .error .linkTooLong
          else do
            let request ← (pkg.forLink link).mapError .request
            if pkg.urlKey request ∈ seen then .error .linkRepeated
            else .ok (some (request, .nextLink (pkg.urlKey request :: seen) linkHeader path))

end Requests

/-! ### The pages of an endpoint -/

/-- An endpoint of a run, with its package and its first request. -/
structure EndpointRun (R H : Type) where
  endpoint : RecipeEndpoint RecipeAttribute
  pkg : RequestPackage R H
  initial : R

/-- What a run has done so far: what it has taken, the last status of the endpoint and the requests
it has sent. -/
structure PagesState (R : Type) where
  taken : Taken
  statusCode : ℕ
  requests : List R

section Endpoints

variable {R H : Type} (fmt : Formats) (json : JsonPackage) (server : List R → Turn H)
  (recipe : RecipeSpec RecipeAttribute) (preview : Bool)

/-- The error of a page. -/
def EndpointRun.fail (e : EndpointRun R H) (pageNumber : ℕ) (cause : FetchCause) : EndpointError :=
  ⟨e.endpoint.name, if e.endpoint.pagination.isSome then some pageNumber else none, cause⟩

/-- **The pages of an endpoint**, from a request on; `left` more pages may follow it.  The server
may answer by all the requests of the run so far. -/
def runPages (e : EndpointRun R H) (sampleLimit : ℕ) :
    ℕ → R → Strategy → PagesState R → PagesState R × Option EndpointError
  | left, request, strategy, s =>
      let pageNumber := maxRecipePages + 1 - left
      let turn := server (s.requests ++ [request])
      match turn.before with
      | some text => (s, some (e.fail pageNumber (.transport text)))
      | none =>
          let s := { s with requests := s.requests ++ [request] }
          match fetchRecipePage json turn with
          | .error cause => (s, some (e.fail pageNumber cause))
          | .ok page =>
              match acceptPage fmt json recipe e.endpoint preview sampleLimit
                  pageNumber page.body s.taken with
              | (taken, .error cause) =>
                  ({ s with taken := taken }, some (e.fail pageNumber cause))
              | (taken, .ok items) =>
                  let s := { s with taken := taken, statusCode := page.status }
                  match turn.after with
                  | some text => (s, some (e.fail pageNumber (.transport text)))
                  | none =>
                      match strategy.next json e.pkg request page items with
                      | .error cause => (s, some (e.fail pageNumber cause))
                      | .ok none => (s, none)
                      | .ok (some (next, strategy)) =>
                          match left with
                          | 0 => (s, some (e.fail pageNumber .pageLimit))
                          | left + 1 => runPages e sampleLimit left next strategy s

/-- **An endpoint**, after the requests of the endpoints before it. -/
def runRecipeEndpoint (e : EndpointRun R H) (sampleLimit : ℕ) (state : RecipeRunState)
    (requests : List R) : PagesState R × Option EndpointError :=
  let s : PagesState R := ⟨⟨state, ⟨0, 0, 0, [], []⟩, []⟩, 0, requests⟩
  match Strategy.new e.pkg e.initial e.endpoint.pagination with
  | .error cause => (s, some ⟨e.endpoint.name, none, cause⟩)
  | .ok strategy =>
      runPages fmt json server recipe preview e sampleLimit
        maxRecipePages e.initial strategy s

/-! ### The endpoints of a recipe -/

/-- What a run tells of one endpoint. -/
structure EndpointReport where
  name : Bytes
  preview : EndpointPreview
  statusCode : ℕ
  error : Option EndpointError

/-- What a run has done: its state, its requests and its endpoints. -/
structure RecipeRun (R : Type) where
  state : RecipeRunState
  requests : List R
  reports : List EndpointReport

/-- **The endpoints of a recipe.**  A preview goes on after an endpoint that fails. -/
def runEndpoints : RecipeRun R → List (EndpointRun R H) → Except EndpointError (RecipeRun R)
  | run, [] => .ok run
  | run, e :: rest =>
      let (s, error) := runRecipeEndpoint fmt json server recipe
        preview e (if preview then maxPreviewSamples else 0) run.state run.requests
      match error, preview with
      | some err, false => .error err
      | error, _ =>
          runEndpoints ⟨s.taken.state, s.requests,
            run.reports ++ [⟨e.endpoint.name, s.taken.preview, s.statusCode, error⟩]⟩ rest

/-- An endpoint of a recipe, with what building its first request gives. -/
structure EndpointPlan (R H : Type) where
  endpoint : RecipeEndpoint RecipeAttribute
  pkg : RequestPackage R H
  /-- `buildRecipeRequest`. -/
  request : Except Bytes R

/-- Why a run fails. -/
inductive RecipeError
  /-- A `ConfigValidationError`. -/
  | config (field message : Bytes)
  | request (text : Bytes)
  | endpoint (err : EndpointError)
  deriving DecidableEq, Repr

/-- The first requests of all endpoints, before any of them is sent. -/
def initialRequests : List (EndpointPlan R H) → Except Bytes (List (EndpointRun R H))
  | [] => .ok []
  | plan :: rest => do
      let request ← plan.request
      let endpoints ← initialRequests rest
      .ok (⟨plan.endpoint, plan.pkg, request⟩ :: endpoints)

/-- **The run of a recipe**; `recipeBaseURL` gives no base URL, by a message, or one over which the
requests are built. -/
def runRecipe (baseURL : Option Bytes) (plans : List (EndpointPlan R H)) :
    Except RecipeError (RecipeRun R) :=
  match baseURL with
  | some message => .error (.config (bytes "url") message)
  | none =>
      if plans = [] then
        .error (.config (bytes "recipe.endpoints") (bytes "must contain at least one endpoint"))
      else do
        let endpoints ← (initialRequests plans).mapError .request
        (runEndpoints fmt json server recipe preview ⟨.start, [], []⟩ endpoints).mapError .endpoint

end Endpoints

end WiseLabz.Recipe
