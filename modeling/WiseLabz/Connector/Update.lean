/-
**Updating a connector.**

A user who is not an instance admin may edit a connector, and may not change where it connects: its
stored credentials would be sent there.  An update replaces the configuration, but a field whose
value is not shown to the user keeps it when it is left out.  Three checks look at what is left out:
one compares the keys that decide where the connector connects, one puts the kept values back, and
one compares the actions of the recipe.

Main definitions:

* `Connector.effectiveConnectorConfig` — **the configuration an update leaves behind**;
* `Connector.update` — the checks of an update, and what it writes;
* `Connector.NotRepointed` — what is claimed of an update;
* `Connector.keepsAll` — the condition.

Main results:

* `Connector.effective_spec` — what is under a key after the kept values are put back;
* `Connector.update_spec` — what an update of such a user writes;
* `Connector.not_repointed_iff` — **when a connector is not repointed**.
-/

import Mathlib.Data.List.Sort
import WiseLabz.Connector.Config
import WiseLabz.Lib.Calendar
import WiseLabz.Lib.Fallible
import WiseLabz.Recipe.Actions

set_option relaxedAutoImplicit false
set_option autoImplicit false

namespace WiseLabz.Connector

open Lib Recipe

variable {ω K : Type}

/-! ### Requests and records -/

/-- The `connectors` row, as far as an update writes it; `configData` is what the stored text decodes
to, if it does. -/
structure ConnectorRecord (ω : Type) where
  name : Bytes
  type : Bytes
  url : Bytes
  owner : Bytes
  verifyTLS : Bool
  enabled : Bool
  category : Bytes
  configData : Option (Config ω)
  scheduleSeconds : Option ℤ
  nextRunAt : Bytes
  userExpiresAt : Option Bytes
  rotationMaxAgeDays : Option ℤ
  secretRotatedAt : Bytes

/-- A raw member of a request, and what it decodes to. -/
inductive RawField (α : Type)
  | absent | malformed | null
  | value (a : α)
  deriving DecidableEq, Repr

structure UpdateConnectorRequest (ω : Type) where
  name : Option Bytes
  url : Option Bytes
  owner : Option Bytes
  verifyTLS : Option Bool
  config : Option (Config ω)
  enabled : Option Bool
  category : Option Bytes
  type : Option Bytes
  scheduleSeconds : RawField ℤ
  userExpiresAt : RawField Bytes
  rotationMaxAgeDays : RawField ℤ

/-- The columns an update writes. -/
structure Updates (ω : Type) where
  name : Option Bytes
  url : Option Bytes
  owner : Option Bytes
  verifyTLS : Option Bool
  enabled : Option Bool
  category : Option Bytes
  type : Option Bytes
  configData : Option (Config ω)
  scheduleSeconds : Option (Option ℤ)
  nextRunAt : Option Bytes
  userExpiresAt : Option (Option Bytes)
  rotationMaxAgeDays : Option (Option ℤ)
  secretRotatedAt : Option Bytes

def Updates.none : Updates ω :=
  ⟨.none, .none, .none, .none, .none, .none, .none, .none, .none, .none, .none, .none, .none⟩

def Updates.isEmpty (u : Updates ω) : Bool :=
  u.name.isNone && u.url.isNone && u.owner.isNone && u.verifyTLS.isNone && u.enabled.isNone &&
    u.category.isNone && u.type.isNone && u.configData.isNone && u.scheduleSeconds.isNone &&
      u.nextRunAt.isNone && u.userExpiresAt.isNone && u.rotationMaxAgeDays.isNone &&
        u.secretRotatedAt.isNone

/-- `UpdateConnector`. -/
def ConnectorRecord.apply (rec : ConnectorRecord ω) (u : Updates ω) : ConnectorRecord ω where
  name := u.name.getD rec.name
  type := u.type.getD rec.type
  url := u.url.getD rec.url
  owner := u.owner.getD rec.owner
  verifyTLS := u.verifyTLS.getD rec.verifyTLS
  enabled := u.enabled.getD rec.enabled
  category := u.category.getD rec.category
  configData := u.configData.or rec.configData
  scheduleSeconds := u.scheduleSeconds.getD rec.scheduleSeconds
  nextRunAt := u.nextRunAt.getD rec.nextRunAt
  userExpiresAt := u.userExpiresAt.getD rec.userExpiresAt
  rotationMaxAgeDays := u.rotationMaxAgeDays.getD rec.rotationMaxAgeDays
  secretRotatedAt := u.secretRotatedAt.getD rec.secretRotatedAt

structure FieldError where
  field : Bytes
  msg : Bytes
  deriving DecidableEq, Repr

/-- Why a request is refused. -/
inductive Rejection
  | error (status : ℕ) (code message : Bytes)
  /-- 400, with the fields. -/
  | invalid (message : Bytes) (details : List FieldError)
  /-- `writeConfigRejection`. -/
  | config (errors : List ConfigError)
  /-- `httputil.Errorf`. -/
  | internal
  /-- `WriteElevationError`. -/
  | elevation
  deriving DecidableEq, Repr

def notFound : Rejection := .error 404 (bytes "not_found") (bytes "Connector not found")

def forbidden (message : String) : Rejection := .error 403 (bytes "forbidden") (bytes message)

def validationFailed (details : List FieldError) : Rejection :=
  .invalid (bytes "Request validation failed") details

/-! ### Recipes -/

/-- A recipe, as far as its category and its actions go; the actions of an endpoint stand under the
kind of its entity. -/
structure ParsedRecipe where
  category : Bytes
  actions : List (Bytes × RecipeAction)
  endpoints : List (Bytes × List (Bytes × RecipeAction))

/-- The parser of recipes. -/
abbrev RecipeParser := Bytes → Except (List ConfigError) ParsedRecipe

/-- The name behind the last point. -/
def localName (name : Bytes) : Bytes := (name.reverse.takeWhile (· ≠ 46)).reverse

/-- `ActionDowntime`. -/
def actionDowntime (name : Bytes) (action : RecipeAction) : ℤ :=
  action.downtimeSeconds.getD (if localName name = bytes "restart" then 30 else 0)

def canonicalAction (name : Bytes) (action : RecipeAction) : RecipeAction :=
  { action with
    label := if action.label = [] then name else action.label
    hasBody := action.hasBody || !action.body.isNull
    downtimeSeconds := some (actionDowntime name action) }

/-- `CanonicalActions`: the declared actions of the recipe of a configuration. -/
def canonicalActions (parseRecipe : RecipeParser) (cfg : Config ω) :
    Except (List ConfigError) (List (Bytes × RecipeAction)) :=
  match cfg (bytes "recipe") with
  | none => .ok []
  | some .null => .ok []
  | some (.text raw) =>
      if trimSpace raw = [] then .ok []
      else do
        let recipe ← parseRecipe raw
        let service := recipe.actions.map fun a =>
          (bytes "service." ++ a.1, canonicalAction a.1 a.2)
        let entity := recipe.endpoints.flatMap fun e => e.2.map fun a =>
          (bytes "entity." ++ e.1 ++ bytes "." ++ a.1, canonicalAction a.1 a.2)
        .ok (putAll Prod.fst [] (service ++ entity))
  | some _ => .error [⟨[], bytes "recipe must be a YAML string"⟩]

/-- `CategoryForConfig` of custom connectors. -/
def categoryForConfig (parseRecipe : RecipeParser) (cfg : Config ω) :
    Except (List ConfigError) Bytes :=
  match cfg (bytes "recipe") with
  | none => .ok (bytes "virtualization")
  | some .null => .ok (bytes "virtualization")
  | some (.text raw) =>
      if trimSpace raw = [] then .ok (bytes "virtualization")
      else (parseRecipe raw).map ParsedRecipe.category
  | some _ => .error [⟨bytes "recipe", bytes "must be a YAML string"⟩]

def mapsEqual (left right : List (Bytes × Bytes)) : Bool :=
  left.length = right.length && left.all fun p => lookup Prod.fst right p.1 = some p

/-- `sameAction`; `marshal` is the encoding of a body. -/
def sameAction (marshal : BodyValue → Option Bytes) (name : Bytes) (left right : RecipeAction) :
    Bool :=
  let left := canonicalAction name left
  let right := canonicalAction name right
  match marshal left.body, marshal right.body with
  | some leftBody, some rightBody =>
      left.method = right.method && left.path = right.path && mapsEqual left.query right.query &&
        mapsEqual left.headers right.headers && leftBody = rightBody &&
          left.hasBody = right.hasBody && left.label = right.label &&
            left.description = right.description &&
              actionDowntime name left = actionDowntime name right
  | _, _ => false

structure ActionDiff where
  added : List Bytes
  changed : List Bytes
  removed : List Bytes
  deriving DecidableEq, Repr

def diffActions (marshal : BodyValue → Option Bytes) (before after : List (Bytes × RecipeAction)) :
    ActionDiff :=
  let sorted (names : List Bytes) := names.insertionSort (· ≤ ·)
  let missing (l : List (Bytes × RecipeAction)) (a : Bytes × RecipeAction) :=
    (lookup Prod.fst l a.1).isNone
  { added := sorted ((after.filter (missing before)).map Prod.fst)
    changed := sorted ((after.filter fun a =>
      match lookup Prod.fst before a.1 with
      | some previous => !sameAction marshal a.1 previous.2 a.2
      | none => false).map Prod.fst)
    removed := sorted ((before.filter (missing after)).map Prod.fst) }

/-! ### Registered types -/

def tlsProbeType : Bytes := bytes "tlsprobe"
def traefikType : Bytes := bytes "traefik"
def customType : Bytes := bytes "custom"

/-- A field without rules. -/
def plainField (key : String) (type : FieldKind) (required : Bool) : SchemaField :=
  ⟨bytes key, type, required, none, 0, 0, []⟩

def maxRecipeBytes : ℕ := 64 * 1024

/-- The schema of custom connectors; `check` is `validateCustomConfig`. -/
def customSchema (parseRecipe : RecipeParser) (check : Config ω → List ConfigError) :
    TypeSchema ω where
  type := customType
  category := bytes "virtualization"
  endpointConfigKeys := [bytes "url", bytes "recipe"]
  fields := [plainField "url" .text true, plainField "method" .select false,
    plainField "headers" .secret false, plainField "auth_token" .password false,
    plainField "auth_username" .password false, plainField "auth_password" .password false,
    { plainField "recipe" .textarea false with maxLength := maxRecipeBytes }]
  noURL := false
  configCheck := some check
  categoryForConfig := some (categoryForConfig parseRecipe)
  keys_nodup := by decide
  endpoint_mem := by decide

def dockerType : Bytes := bytes "docker"

def dockerSchema : TypeSchema ω where
  type := dockerType
  category := bytes "containers_paas"
  endpointConfigKeys := [bytes "host", bytes "verify_tls"]
  fields := [plainField "host" .text true, plainField "tls_cert" .secret false,
    plainField "tls_key" .secret false, plainField "tls_ca" .secret false,
    plainField "verify_tls" .toggle false, plainField "ssh_user" .text false,
    plainField "ssh_password" .password false, plainField "ssh_private_key" .secret false,
    plainField "ssh_private_key_passphrase" .password false,
    plainField "ssh_host_key" .secret false]
  noURL := false
  configCheck := none
  categoryForConfig := none
  keys_nodup := by decide
  endpoint_mem := by decide

/-- The schema of the TLS probe; `check` is its `checkConfig`. -/
def tlsProbeSchema (check : Config ω → List ConfigError) : TypeSchema ω where
  type := tlsProbeType
  category := bytes "monitoring"
  endpointConfigKeys := [bytes "targets", bytes "import_connector_id", bytes "import_port"]
  fields := [{ plainField "targets" .textarea false with maxLength := 32768 },
    plainField "import_connector_id" .text false, plainField "import_port" .number false]
  noURL := true
  configCheck := some check
  categoryForConfig := none
  keys_nodup := by decide
  endpoint_mem := by decide

/-- What an update reads besides the connector. -/
structure UpdateEnv (ω K : Type) where
  schemas : List (TypeSchema ω)
  cipher : Cipher K
  /-- The encryption key of the server, if it can be decoded. -/
  key : Option K
  parseRecipe : RecipeParser
  marshalBody : BodyValue → Option Bytes
  customCheck : Config ω → List ConfigError
  now : ℕ
  instanceAdmin : Bool
  /-- Whether the elevation header is valid for the recipe actions of the connector. -/
  elevated : Bool
  /-- The type of a stored connector. -/
  connectorType : Bytes → Option Bytes
  /-- The role of the user on a connector. -/
  role : Bytes → Bytes
  custom_registered : getTypeSchema schemas customType = some (customSchema parseRecipe customCheck)

/-! ### What is kept when it is omitted -/

/-- `configKeptWhenOmitted`. -/
def configKeptWhenOmitted (kind : FieldKind) : Bool := isSecretFieldType kind || kind = .textarea

def fieldKeptWhenOmitted (schema : TypeSchema ω) (key : Bytes) : Bool :=
  (schema.type = tlsProbeType && schema.endpointConfigKeys.contains key) ||
    (schema.fields.find? fun f => f.key = key).any fun f => configKeptWhenOmitted f.type

/-- The stored value that an omitted field keeps. -/
def carried (schema : TypeSchema ω) : Option (ConfigValue ω) → Option (ConfigValue ω)
  | none => none
  | some v =>
      if schema.type = tlsProbeType then some v
      else
        match v with
        | .text s => if s = [] then none else some (.text s)
        | _ => none

def keepOmitted (schema : TypeSchema ω) (stored : Config ω) (f : SchemaField)
    (v : Option (ConfigValue ω)) : Option (ConfigValue ω) :=
  if !fieldKeptWhenOmitted schema f.key || v.isSome then v else carried schema (stored f.key)

/-- `effectiveConnectorConfig`: **the configuration an update leaves behind**. -/
def effectiveConnectorConfig (schemas : List (TypeSchema ω)) (stored : Config ω)
    (storedType typ : Bytes) : Option (Config ω) → Config ω
  | none => stored
  | some requested =>
      match getTypeSchema schemas typ with
      | none => requested
      | some schema =>
          -- changed type: nothing to carry over
          if typ ≠ storedType then requested
          else rewriteAll SchemaField.key (keepOmitted schema stored) schema.fields requested

/-! ### The update -/

variable (env : UpdateEnv ω K) (stored : Option (ConnectorRecord ω))
  (req : UpdateConnectorRequest ω)

def minScheduleSeconds : ℤ := 60
def maxScheduleSeconds : ℤ := 30 * 24 * 60 * 60

/-- `validateRotationFields`. -/
def validateRotationFields (userExpiresAt : Bytes) (rotationMaxAgeDays : Option ℤ) :
    List FieldError :=
  (if userExpiresAt ≠ [] ∧ parseTime userExpiresAt = none then
    [⟨bytes "userExpiresAt", bytes "must be an RFC3339 timestamp"⟩] else []) ++
  if rotationMaxAgeDays.any (· ≤ 0) then
    [⟨bytes "rotationMaxAgeDays", bytes "must be a positive number of days"⟩] else []

def parseScheduleSeconds : RawField ℤ → Except (List FieldError) (Option (Option ℤ))
  | .absent => .ok none
  | .malformed => .error [⟨bytes "scheduleSeconds", bytes "must be a number or null"⟩]
  | .null => .ok (some none)
  | .value v =>
      if v < minScheduleSeconds ∨ maxScheduleSeconds < v then
        .error [⟨bytes "scheduleSeconds", bytes ("must be between " ++ toString minScheduleSeconds ++
          " and " ++ toString maxScheduleSeconds ++ " seconds")⟩]
      else .ok (some (some v))

def parseUserExpiresAt : RawField Bytes → Except (List FieldError) (Option Bytes)
  | .absent => .ok none
  | .malformed => .error [⟨bytes "userExpiresAt", bytes "must be a string or null"⟩]
  | .null => .ok (some [])
  | .value v => .ok (some v)

def parseRotationMaxAgeDays : RawField ℤ → Except (List FieldError) (Option (Option ℤ))
  | .absent => .ok none
  | .malformed => .error [⟨bytes "rotationMaxAgeDays", bytes "must be a number or null"⟩]
  | .null => .ok (some none)
  | .value v => .ok (some (some v))

/-- `parseScheduleUpdates`. -/
def parseScheduleUpdates : Except (List FieldError) (Updates ω) := do
  let scheduleSeconds ← parseScheduleSeconds req.scheduleSeconds
  let userExpiresAt ← parseUserExpiresAt req.userExpiresAt
  let rotationMaxAgeDays ← parseRotationMaxAgeDays req.rotationMaxAgeDays
  let errs := validateRotationFields (userExpiresAt.getD []) rotationMaxAgeDays.join
  if errs ≠ [] then .error errs
  else .ok { Updates.none with
    scheduleSeconds := scheduleSeconds
    userExpiresAt := userExpiresAt.map fun v => if v = [] then none else some v
    rotationMaxAgeDays := rotationMaxAgeDays }

/-- `Categories`. -/
def categories : List Bytes :=
  ["virtualization", "containers_paas", "networking", "dns", "storage", "monitoring", "media",
    "other"].map bytes

def categoryErrors : List FieldError :=
  match req.category with
  | none => []
  | some c =>
      if c = [] then [⟨bytes "category", bytes "is required"⟩]
      else if c ∉ categories then [⟨bytes "category", bytes "is not a valid category"⟩]
      else []

/-- A value as the code compares it: nothing under a key reads as null. -/
def nilOf : Option (ConfigValue ω) → Option (ConfigValue ω)
  | some .null => none
  | v => v

/-- Whether a request leaves the value under an endpoint key as it is. -/
def endpointUnchanged [DecidableEq ω] (schema : TypeSchema ω) (config old : Config ω) (key : Bytes) : Bool :=
  ((config key).isNone && fieldKeptWhenOmitted schema key) || nilOf (config key) = nilOf (old key)

/-- **`authorizeConnectorRepoint`**. -/
def authorizeConnectorRepoint [DecidableEq ω] : Except Rejection Unit :=
  if req.url = none ∧ req.type = none ∧ req.verifyTLS = none ∧ req.category = none ∧
      req.config.isNone then .ok ()
  else if env.instanceAdmin then .ok ()
  else
    match stored with
    | none => .error notFound
    | some current =>
        if (req.url.any (· ≠ current.url)) || (req.type.any (· ≠ current.type)) ||
            (req.verifyTLS.any (· ≠ current.verifyTLS)) ||
              (req.category.any (· ≠ current.category)) then
          .error (forbidden "Changing url, type, verifyTls or category requires an instance admin")
        else
          match req.config, getTypeSchema env.schemas current.type with
          | some config, some schema =>
              if schema.endpointConfigKeys = [] then .ok ()
              else
                match parseConnectorConfig env.cipher env.schemas env.key current.type
                    current.configData with
                | none => .error .internal
                | some old =>
                    if schema.endpointConfigKeys.all (endpointUnchanged schema config old) then
                      .ok ()
                    else
                      .error (forbidden "Changing endpoint config requires an instance admin")
          | _, _ => .ok ()

/-- `applyConnectorScalarUpdates`. -/
def applyConnectorScalarUpdates (u : Updates ω) : Updates ω :=
  { u with
    name := req.name.or u.name
    url := req.url.or u.url
    owner := req.owner.or u.owner
    verifyTLS := req.verifyTLS.or u.verifyTLS
    enabled := req.enabled.or u.enabled
    category := req.category.or u.category
    type := req.type.or u.type }

/-- `pullInNextRun`: a new schedule takes effect at once. -/
def pullInNextRun (u : Updates ω) : Except Rejection (Updates ω) :=
  match u.scheduleSeconds.join with
  | none => .ok u
  | some secs =>
      match stored with
      | none => .error notFound
      | some current =>
          let candidate := env.now + secs.toNat * nsPerSecond
          if current.nextRunAt ≠ [] ∧ (parseTime current.nextRunAt).any (· ≤ candidate) then .ok u
          else .ok { u with nextRunAt := some (rfc3339 candidate) }

/-- `authorizeImportReference`. -/
def authorizeImportReference (typ : Bytes) (cfg : Config ω) : Except Rejection Unit :=
  let id := trimSpace (cfg.textAt (bytes "import_connector_id"))
  if typ ≠ tlsProbeType ∨ id = [] then .ok ()
  else if env.connectorType id = none ∨ env.role id = [] then
    .error (forbidden
      "You do not have access to the connector named in config.import_connector_id")
  else if env.connectorType id ≠ some traefikType then
    .error (validationFailed
      [⟨bytes "config.import_connector_id", bytes "must be a Traefik connector"⟩])
  else .ok ()

/-- `validateConnectorConfig`. -/
def validateConnectorConfig (typ url : Bytes) (verifyTLS : Bool) (cfg : Config ω) :
    List ConfigError :=
  match getTypeSchema env.schemas typ with
  | none => []
  | some schema => validateConfig schema
      (Function.update (Function.update cfg (bytes "url") (some (.text url))) (bytes "verify_tls")
        (some (.bool verifyTLS)))

/-- A connector whose derived category did not change keeps whatever category it has. -/
def categoryUnchanged (schema : TypeSchema ω) (rec : ConnectorRecord ω) (typ : Bytes)
    (storedConfig : Config ω) (derived : Bytes) : Bool :=
  typ = rec.type &&
    match schema.configCategory storedConfig with
    | .ok storedDerived => storedDerived = derived
    | .error _ => false

/-- The category that the configuration of a type with a derived one asks for. -/
def deriveCategory (rec : ConnectorRecord ω) (typ : Bytes) (storedConfig effective : Config ω)
    (u : Updates ω) : Except Rejection (Updates ω) :=
  match getTypeSchema env.schemas typ with
  | none => .ok u
  | some schema =>
      if schema.categoryForConfig.isNone then .ok u
      else
        match schema.configCategory effective with
        | .error errs => .error (.config errs)
        | .ok derived =>
            let unchanged := categoryUnchanged schema rec typ storedConfig derived
            if req.category.any fun c => c ≠ derived && (!unchanged || c ≠ rec.category) then
              .error (.invalid (bytes "Category conflicts with connector configuration")
                [⟨bytes "category", bytes "must match the category derived from the recipe"⟩])
            else if unchanged then .ok u
            else if derived ≠ rec.category ∧ !env.instanceAdmin then
              .error (forbidden "Changing category requires an instance admin")
            else .ok { u with category := some derived }

/-- The stored form of a new configuration, and when a secret changed. -/
def writeConfig (rec : ConnectorRecord ω) (typ : Bytes) (effective : Config ω) (u : Updates ω) :
    Except Rejection (Updates ω) :=
  match secretFieldsChanged env.cipher env.schemas env.key typ rec.configData effective,
      marshalConnectorConfig env.cipher env.schemas env.key typ effective with
  | some changed, some data => .ok { u with
      configData := some data
      secretRotatedAt := if changed then some (rfc3339 env.now) else u.secretRotatedAt }
  | _, _ => .error .internal

/-- **`applyConnectorConfigUpdate`**. -/
def applyConnectorConfigUpdate (u : Updates ω) : Except Rejection (Updates ω) :=
  if req.url = none ∧ req.type = none ∧ req.verifyTLS = none ∧ req.category = none ∧
      req.config.isNone then .ok u
  else
    match stored with
    | none => .error notFound
    | some rec =>
        let typ := req.type.getD rec.type
        let url := req.url.getD rec.url
        let verifyTLS := req.verifyTLS.getD rec.verifyTLS
        if url = [] ∧ urlRequired env.schemas typ then
          .error (validationFailed [⟨bytes "url", bytes "is required"⟩])
        else
          match parseConnectorConfig env.cipher env.schemas env.key rec.type rec.configData with
          | none => .error .internal
          | some storedConfig =>
              let effective :=
                effectiveConnectorConfig env.schemas storedConfig rec.type typ req.config
              let errs := validateConnectorConfig env typ url verifyTLS effective
              if errs ≠ [] then .error (.config errs)
              else do
                authorizeImportReference env typ effective
                let u ← deriveCategory env req rec typ storedConfig effective u
                if req.config.isNone then .ok u else writeConfig env rec typ effective u

/-- `recipeActionsFor`. -/
def recipeActionsFor (typ : Bytes) (cfg : Config ω) :
    Except (List ConfigError) (List (Bytes × RecipeAction)) :=
  if typ = customType then canonicalActions env.parseRecipe cfg else .ok []

/-- `authorizeRecipeActions`. -/
def authorizeRecipeActions (oldType : Bytes) (oldConfig : Config ω) (newType : Bytes)
    (newConfig : Config ω) : Except Rejection Unit :=
  -- a stored recipe that no longer parses declares no usable actions
  let previous := match recipeActionsFor env oldType oldConfig with
    | .ok actions => actions
    | .error _ => []
  match recipeActionsFor env newType newConfig with
  | .error errs => .error (.config errs)
  | .ok next =>
      if diffActions env.marshalBody previous next = ⟨[], [], []⟩ then .ok ()
      else if !env.instanceAdmin then
        .error (forbidden "Changing recipe actions requires an instance admin")
      else if next ≠ [] ∧ !env.elevated then .error .elevation
      else .ok ()

/-- `authorizeUpdatedRecipeActions`. -/
def authorizeUpdatedRecipeActions (u : Updates ω) : Except Rejection Unit :=
  match stored with
  | none => .error notFound
  | some rec =>
      if u.configData.isNone ∧ u.type = none then .ok ()
      else
        match rec.configData with
        | none => .error .internal
        | some oldConfig => authorizeRecipeActions env rec.type oldConfig (u.type.getD rec.type)
            (u.configData.getD oldConfig)

/-- **`Update`**, up to `UpdateConnector`: the columns that are written. -/
def update [DecidableEq ω] : Except Rejection (Updates ω) :=
  match parseScheduleUpdates req with
  | .error errs => .error (validationFailed (errs ++ categoryErrors req))
  | .ok u =>
      if categoryErrors req ≠ [] then .error (validationFailed (categoryErrors req))
      else do
        authorizeConnectorRepoint env stored req
        let u ← pullInNextRun env stored (applyConnectorScalarUpdates req u)
        let u ← applyConnectorConfigUpdate env stored req u
        if u.isEmpty then
          .error (.error 400 (bytes "invalid_request") (bytes "No fields to update"))
        else do
          authorizeUpdatedRecipeActions env stored u
          .ok u

/-! ### What is claimed -/

/-- A value as a connector sees it: nothing, null and the empty text are one. -/
def effectiveValue : Option (ConfigValue ω) → Option (ConfigValue ω)
  | some .null => none
  | some (.text s) => if s = [] then none else some (.text s)
  | v => v

/-- The value under a key of the stored configuration, if it can be read. -/
def valueAt (rec : ConnectorRecord ω) (k : Bytes) : Option (Option (ConfigValue ω)) :=
  (parseConnectorConfig env.cipher env.schemas env.key rec.type rec.configData).map fun cfg =>
    effectiveValue (cfg k)

/-- **What is claimed of an update** that makes `after` of `rec`. -/
structure NotRepointed (rec after : ConnectorRecord ω) : Prop where
  type : after.type = rec.type
  url : after.url = rec.url
  verifyTLS : after.verifyTLS = rec.verifyTLS
  category : after.category = rec.category
  endpoints : ∀ schema, getTypeSchema env.schemas rec.type = some schema →
    ∀ k ∈ schema.endpointConfigKeys, valueAt env after k = valueAt env rec k
  actions : rec.type = customType → ∀ actions,
    rec.configData.map (canonicalActions env.parseRecipe) = some (.ok actions) →
      after.configData.map (canonicalActions env.parseRecipe) = some (.ok actions)
  kept : ∀ schema, getTypeSchema env.schemas rec.type = some schema →
    ∀ f ∈ schema.fields, configKeptWhenOmitted f.type = true →
      (∀ config, req.config = some config → config f.key = none) →
        valueAt env after f.key = valueAt env rec f.key

/-- **The condition**: under a secret or textarea field that the request's configuration omits, the
stored one has a text, null or nothing, unless the type is the TLS probe. -/
def keepsAll (rec : ConnectorRecord ω) : Bool :=
  match req.config, rec.configData, getTypeSchema env.schemas rec.type with
  | some config, some raw, some schema =>
      schema.type = tlsProbeType || schema.fields.all fun f =>
        !configKeptWhenOmitted f.type || (config f.key).isSome || textOrNull (raw f.key)
  | _, _, _ => true

variable {env stored req}

/-! ### What the checks let pass -/

theorem parseScheduleUpdates_ok {u : Updates ω} (h : parseScheduleUpdates req = .ok u) :
    u.type = none ∧ u.url = none ∧ u.verifyTLS = none ∧ u.category = none ∧
      u.configData.isNone := by
  rw [parseScheduleUpdates] at h
  obtain ⟨_, -, h⟩ := bind_eq_ok.1 h
  obtain ⟨_, -, h⟩ := bind_eq_ok.1 h
  obtain ⟨_, -, h⟩ := bind_eq_ok.1 h
  dsimp only at h
  split at h
  · cases h
  · obtain rfl := Except.ok.inj h
    exact ⟨rfl, rfl, rfl, rfl, rfl⟩

theorem pullInNextRun_ok {u u' : Updates ω} (h : pullInNextRun env stored u = .ok u') :
    u'.type = u.type ∧ u'.url = u.url ∧ u'.verifyTLS = u.verifyTLS ∧ u'.category = u.category ∧
      u'.configData = u.configData := by
  rw [pullInNextRun] at h
  split at h
  · obtain rfl := Except.ok.inj h
    exact ⟨rfl, rfl, rfl, rfl, rfl⟩
  · split at h
    · cases h
    · dsimp only at h
      split at h
      · obtain rfl := Except.ok.inj h
        exact ⟨rfl, rfl, rfl, rfl, rfl⟩
      · obtain rfl := Except.ok.inj h
        exact ⟨rfl, rfl, rfl, rfl, rfl⟩

/-- A value that a request may have and that must be the stored one. -/
theorem getD_of_unchanged {α : Type} [DecidableEq α] {a : α} {o : Option α}
    (h : o.any (· ≠ a) = false) : o.getD a = a := by
  cases o with
  | none => rfl
  | some b => simpa using h

/-- What the repoint check lets a user pass who is not an instance admin. -/
theorem authorizeConnectorRepoint_ok [DecidableEq ω] {rec : ConnectorRecord ω}
    (hadmin : env.instanceAdmin = false)
    (h : authorizeConnectorRepoint env (some rec) req = .ok ()) :
    (req.type.getD rec.type = rec.type ∧ req.url.getD rec.url = rec.url ∧
      req.verifyTLS.getD rec.verifyTLS = rec.verifyTLS ∧
        req.category.getD rec.category = rec.category) ∧
    ∀ config old schema, req.config = some config →
      parseConnectorConfig env.cipher env.schemas env.key rec.type rec.configData = some old →
        getTypeSchema env.schemas rec.type = some schema →
          ∀ k ∈ schema.endpointConfigKeys, endpointUnchanged schema config old k = true := by
  rw [authorizeConnectorRepoint] at h
  split at h
  · next hnone =>
      obtain ⟨hurl, htype, htls, hcat, hconfig⟩ := hnone
      refine ⟨by simp [hurl, htype, htls, hcat], fun config old schema hc => ?_⟩
      rw [hc] at hconfig
      cases hconfig
  · rw [if_neg (by simp [hadmin])] at h
    split at h
    · cases h
    · next hsame =>
        simp only [Bool.or_eq_true, not_or, Bool.not_eq_true] at hsame
        obtain ⟨⟨⟨hurl, htype⟩, htls⟩, hcat⟩ := hsame
        refine ⟨⟨getD_of_unchanged htype, getD_of_unchanged hurl, getD_of_unchanged htls,
          getD_of_unchanged hcat⟩, fun config old schema hc hold hs k hk => ?_⟩
        rw [hc, hs] at h
        dsimp only at h
        rw [if_neg (List.ne_nil_of_mem hk), hold] at h
        dsimp only at h
        split at h
        · next hall => exact List.all_eq_true.1 hall k hk
        · cases h

theorem deriveCategory_ok {rec : ConnectorRecord ω} {typ : Bytes}
    {storedConfig effective : Config ω} {u u' : Updates ω} (hadmin : env.instanceAdmin = false)
    (h : deriveCategory env req rec typ storedConfig effective u = .ok u') :
    u' = u ∨ u' = { u with category := some rec.category } := by
  rw [deriveCategory] at h
  split at h
  · exact Or.inl (Except.ok.inj h).symm
  · split at h
    · exact Or.inl (Except.ok.inj h).symm
    · split at h
      · cases h
      · next derived _ =>
          dsimp only at h
          split at h
          · cases h
          · split at h
            · exact Or.inl (Except.ok.inj h).symm
            · split at h
              · cases h
              · next hcat =>
                  have hderived : derived = rec.category := by
                    by_contra hne
                    exact hcat ⟨hne, by simp [hadmin]⟩
                  subst hderived
                  exact Or.inr (Except.ok.inj h).symm

theorem writeConfig_ok {rec : ConnectorRecord ω} {typ : Bytes} {effective : Config ω}
    {u u' : Updates ω} (h : writeConfig env rec typ effective u = .ok u') :
    ∃ data at_, marshalConnectorConfig env.cipher env.schemas env.key typ effective = some data ∧
      u' = { u with configData := some data, secretRotatedAt := at_ } := by
  rw [writeConfig] at h
  split at h
  · next changed data _ hdata => exact ⟨data, _, hdata, (Except.ok.inj h).symm⟩
  · cases h

/-- What the configuration part of an update writes. -/
theorem applyConnectorConfigUpdate_ok {rec : ConnectorRecord ω} {u u' : Updates ω}
    (hadmin : env.instanceAdmin = false)
    (h : applyConnectorConfigUpdate env (some rec) req u = .ok u') :
    (u'.type = u.type ∧ u'.url = u.url ∧ u'.verifyTLS = u.verifyTLS ∧
      (u'.category = u.category ∨ u'.category = some rec.category)) ∧
    ((req.config.isNone ∧ u'.configData = u.configData) ∨ ∃ config old data,
      req.config = some config ∧
      parseConnectorConfig env.cipher env.schemas env.key rec.type rec.configData = some old ∧
      marshalConnectorConfig env.cipher env.schemas env.key (req.type.getD rec.type)
        (effectiveConnectorConfig env.schemas old rec.type (req.type.getD rec.type)
          (some config)) = some data ∧
      u'.configData = some data) := by
  rw [applyConnectorConfigUpdate] at h
  split at h
  · next hnone =>
      obtain rfl := Except.ok.inj h
      exact ⟨⟨rfl, rfl, rfl, Or.inl rfl⟩, Or.inl ⟨hnone.2.2.2.2, rfl⟩⟩
  · dsimp only at h
    split at h
    · cases h
    · split at h
      · cases h
      · next old hold =>
          split at h
          · cases h
          · obtain ⟨-, h⟩ := check_bind_eq_ok.1 h
            obtain ⟨u₁, hcat, h⟩ := bind_eq_ok.1 h
            have hu₁ := deriveCategory_ok hadmin hcat
            split at h
            · next hconfig =>
                obtain rfl := Except.ok.inj h
                rcases hu₁ with rfl | rfl
                · exact ⟨⟨rfl, rfl, rfl, Or.inl rfl⟩, Or.inl ⟨hconfig, rfl⟩⟩
                · exact ⟨⟨rfl, rfl, rfl, Or.inr rfl⟩, Or.inl ⟨hconfig, rfl⟩⟩
            · next hconfig =>
                obtain ⟨config, hc⟩ : ∃ config, req.config = some config :=
                  Option.ne_none_iff_exists'.1 (by simpa using hconfig)
                obtain ⟨data, at_, hdata, rfl⟩ := writeConfig_ok h
                rw [hc] at hdata
                refine ⟨?_, Or.inr ⟨config, old, data, hc, hold, hdata, rfl⟩⟩
                rcases hu₁ with rfl | rfl
                · exact ⟨rfl, rfl, rfl, Or.inl rfl⟩
                · exact ⟨rfl, rfl, rfl, Or.inr rfl⟩

/-- **What an update writes** that is not an instance admin's. -/
structure Written [DecidableEq ω] (env : UpdateEnv ω K) (req : UpdateConnectorRequest ω)
    (rec : ConnectorRecord ω) (u : Updates ω) : Prop where
  type : u.type.getD rec.type = rec.type
  url : u.url.getD rec.url = rec.url
  verifyTLS : u.verifyTLS.getD rec.verifyTLS = rec.verifyTLS
  category : u.category.getD rec.category = rec.category
  config : (req.config.isNone ∧ u.configData.isNone) ∨ ∃ config old data,
    req.config = some config ∧
    parseConnectorConfig env.cipher env.schemas env.key rec.type rec.configData = some old ∧
    marshalConnectorConfig env.cipher env.schemas env.key rec.type
      (effectiveConnectorConfig env.schemas old rec.type rec.type (some config)) = some data ∧
    u.configData = some data ∧
    ∀ schema, getTypeSchema env.schemas rec.type = some schema →
      ∀ k ∈ schema.endpointConfigKeys, endpointUnchanged schema config old k = true

theorem update_spec [DecidableEq ω] {rec : ConnectorRecord ω} {u : Updates ω}
    (hadmin : env.instanceAdmin = false) (h : update env (some rec) req = .ok u) : Written env req rec u := by
  rw [update] at h
  split at h
  · cases h
  · next u₀ hu₀ =>
      split at h
      · cases h
      · obtain ⟨hauth, h⟩ := check_bind_eq_ok.1 h
        obtain ⟨u₁, hu₁, h⟩ := bind_eq_ok.1 h
        obtain ⟨u₂, hu₂, h⟩ := bind_eq_ok.1 h
        split at h
        · cases h
        · obtain ⟨-, h⟩ := check_bind_eq_ok.1 h
          obtain rfl := Except.ok.inj h
          obtain ⟨htype₀, hurl₀, htls₀, hcat₀, hdata₀⟩ := parseScheduleUpdates_ok hu₀
          obtain ⟨htype₁, hurl₁, htls₁, hcat₁, hdata₁⟩ := pullInNextRun_ok hu₁
          obtain ⟨⟨htype₂, hurl₂, htls₂, hcat₂⟩, hdata₂⟩ := applyConnectorConfigUpdate_ok hadmin hu₂
          obtain ⟨⟨htype, hurl, htls, hcat⟩, hendpoints⟩ := authorizeConnectorRepoint_ok hadmin hauth
          simp only [applyConnectorScalarUpdates, htype₀, hurl₀, htls₀, hcat₀, Option.or_none]
            at htype₁ hurl₁ htls₁ hcat₁ hdata₁
          refine ⟨by rw [htype₂, htype₁, htype], by rw [hurl₂, hurl₁, hurl],
            by rw [htls₂, htls₁, htls], ?_, ?_⟩
          · rcases hcat₂ with hcat₂ | hcat₂
            · rw [hcat₂, hcat₁, hcat]
            · rw [hcat₂, Option.getD_some]
          · rcases hdata₂ with ⟨hnone, hdata⟩ | ⟨config, old, data, hc, hold, hmarshal, hdata⟩
            · exact Or.inl ⟨hnone, by rw [hdata, hdata₁, hdata₀]⟩
            · rw [htype] at hmarshal
              exact Or.inr ⟨config, old, data, hc, hold, hmarshal, hdata,
                fun schema hs => hendpoints config old schema hc hold hs⟩

/-! ### What is left behind -/

/-- Whether the value of a field is kept when it is omitted. -/
theorem fieldKeptWhenOmitted_of_mem {schema : TypeSchema ω} {f : SchemaField}
    (hf : f ∈ schema.fields) (hkept : configKeptWhenOmitted f.type = true) :
    fieldKeptWhenOmitted schema f.key = true := by
  have hfind : schema.fields.find? (fun g => g.key = f.key) = some f :=
    @KeyNodup.lookup_of_mem _ _ _ SchemaField.key _ schema.keys_nodup _ hf
  rw [fieldKeptWhenOmitted, hfind, Option.any_some, hkept, Bool.or_true]

theorem kept_of_fieldKeptWhenOmitted {schema : TypeSchema ω} {f : SchemaField}
    (hf : f ∈ schema.fields) (h : fieldKeptWhenOmitted schema f.key = true) :
    schema.type = tlsProbeType ∨ configKeptWhenOmitted f.type = true := by
  have hfind : schema.fields.find? (fun g => g.key = f.key) = some f :=
    @KeyNodup.lookup_of_mem _ _ _ SchemaField.key _ schema.keys_nodup _ hf
  rw [fieldKeptWhenOmitted, hfind, Option.any_some, Bool.or_eq_true, Bool.and_eq_true,
    decide_eq_true_eq] at h
  exact h.imp_left And.left

/-- **What is under a key** after the kept values are put back. -/
theorem effective_spec {schemas : List (TypeSchema ω)} {schema : TypeSchema ω} {typ : Bytes}
    (hs : getTypeSchema schemas typ = some schema) (old config : Config ω) {f : SchemaField}
    (hf : f ∈ schema.fields) :
    effectiveConnectorConfig schemas old typ typ (some config) f.key =
      if fieldKeptWhenOmitted schema f.key = true ∧ config f.key = none then
        carried schema (old f.key)
      else config f.key := by
  rw [effectiveConnectorConfig]
  simp only [hs, ne_eq, not_true_eq_false, if_false]
  rw [rewriteAll_of_mem schema.keys_nodup hf, keepOmitted]
  cases hkept : fieldKeptWhenOmitted schema f.key <;> cases hc : config f.key <;> simp

/-- A carried value is the stored one for a connector, if the stored one is a text or null. -/
theorem effectiveValue_carried {schema : TypeSchema ω} {v : Option (ConfigValue ω)}
    (h : schema.type = tlsProbeType ∨ textOrNull v = true) :
    effectiveValue (carried schema v) = effectiveValue v := by
  rcases h with h | h
  · cases v with
    | none => rfl
    | some v => simp [carried, h]
  · rcases v with _ | _ | s | b | v
    · rfl
    · by_cases hp : schema.type = tlsProbeType <;> simp [carried, effectiveValue, hp]
    · by_cases hp : schema.type = tlsProbeType <;> by_cases hs : s = [] <;>
        simp [carried, effectiveValue, hp, hs]
    · cases h
    · cases h

/-- A value of another kind is lost. -/
theorem effectiveValue_carried_ne {schema : TypeSchema ω} {v : Option (ConfigValue ω)}
    (hne : schema.type ≠ tlsProbeType) (hv : textOrNull v = false) :
    effectiveValue (carried schema v) ≠ effectiveValue v := by
  rcases v with _ | _ | s | b | v
  · cases hv
  · cases hv
  · cases hv
  · simp [carried, effectiveValue, hne]
  · simp [carried, effectiveValue, hne]

theorem effectiveValue_of_nilOf {v w : Option (ConfigValue ω)} (h : nilOf v = nilOf w) :
    effectiveValue v = effectiveValue w := by
  have hnil : ∀ v : Option (ConfigValue ω), effectiveValue (nilOf v) = effectiveValue v := by
    intro v
    rcases v with _ | _ | s | b | v <;> rfl
  rw [← hnil v, h, hnil w]

/-- The actions of a recipe depend on its value as a connector sees it. -/
theorem canonicalActions_congr {parseRecipe : RecipeParser} {cfg cfg' : Config ω}
    (h : effectiveValue (cfg (bytes "recipe")) = effectiveValue (cfg' (bytes "recipe"))) :
    canonicalActions parseRecipe cfg = canonicalActions parseRecipe cfg' := by
  have heq : ∀ cfg : Config ω, canonicalActions parseRecipe cfg =
      match effectiveValue (cfg (bytes "recipe")) with
      | none => .ok []
      | some v => canonicalActions parseRecipe fun _ => some v := by
    intro cfg
    rw [canonicalActions]
    rcases cfg (bytes "recipe") with _ | _ | s | b | v
    · rfl
    · rfl
    · by_cases hs : s = []
      · simp [effectiveValue, hs]
      · simp [effectiveValue, hs, canonicalActions]
    · rfl
    · rfl
  rw [heq cfg, h, ← heq cfg']

/-! ### When a connector is not repointed -/

/-- The value that is read again from what a configuration was written as. -/
theorem valueAt_apply {rec : ConnectorRecord ω} {u : Updates ω} {cfg data : Config ω}
    (htype : u.type.getD rec.type = rec.type)
    (hmarshal : marshalConnectorConfig env.cipher env.schemas env.key rec.type cfg = some data)
    (hdata : u.configData = some data) (k : Bytes) :
    valueAt env (rec.apply u) k = some (effectiveValue (cfg k)) := by
  rw [valueAt, ConnectorRecord.apply, htype, hdata, Option.some_or, parse_marshal hmarshal]
  rfl

theorem valueAt_eq {rec : ConnectorRecord ω} {old : Config ω}
    (hold : parseConnectorConfig env.cipher env.schemas env.key rec.type rec.configData = some old)
    (k : Bytes) : valueAt env rec k = some (effectiveValue (old k)) := by
  rw [valueAt, hold]
  rfl

/-- The value under an endpoint key stays if the kept values do. -/
theorem effective_endpoint [DecidableEq ω] {schemas : List (TypeSchema ω)} {schema : TypeSchema ω}
    {typ : Bytes} (hs : getTypeSchema schemas typ = some schema) {old config : Config ω}
    {f : SchemaField} (hf : f ∈ schema.fields)
    (hunchanged : endpointUnchanged schema config old f.key = true)
    (hkept : configKeptWhenOmitted f.type = true → config f.key = none →
      schema.type = tlsProbeType ∨ textOrNull (old f.key) = true) :
    effectiveValue (effectiveConnectorConfig schemas old typ typ (some config) f.key) =
      effectiveValue (old f.key) := by
  rw [effective_spec hs old config hf]
  split
  · next hk =>
      refine effectiveValue_carried ?_
      rcases kept_of_fieldKeptWhenOmitted hf hk.1 with h | h
      · exact Or.inl h
      · exact hkept h hk.2
  · next hk =>
      rw [endpointUnchanged, Bool.or_eq_true, Bool.and_eq_true, Option.isNone_iff_eq_none,
        decide_eq_true_eq] at hunchanged
      exact effectiveValue_of_nilOf (hunchanged.resolve_left fun h => hk h.symm)

/-- An omitted value that is kept stays. -/
theorem effective_kept {schemas : List (TypeSchema ω)} {schema : TypeSchema ω} {typ : Bytes}
    (hs : getTypeSchema schemas typ = some schema) {old config : Config ω} {f : SchemaField}
    (hf : f ∈ schema.fields) (hkind : configKeptWhenOmitted f.type = true)
    (homitted : config f.key = none) :
    effectiveConnectorConfig schemas old typ typ (some config) f.key =
      carried schema (old f.key) := by
  rw [effective_spec hs old config hf,
    if_pos ⟨fieldKeptWhenOmitted_of_mem hf hkind, homitted⟩]

/-- The condition, field by field. -/
theorem keepsAll_iff {rec : ConnectorRecord ω} {config old : Config ω} {schema : TypeSchema ω}
    (hc : req.config = some config) (hs : getTypeSchema env.schemas rec.type = some schema)
    (hold : parseConnectorConfig env.cipher env.schemas env.key rec.type rec.configData =
      some old) :
    keepsAll env req rec = true ↔ ∀ f ∈ schema.fields, configKeptWhenOmitted f.type = true →
      config f.key = none → schema.type = tlsProbeType ∨ textOrNull (old f.key) = true := by
  obtain ⟨raw, hraw, hfields, -⟩ := parse_spec hs hold
  have htext : ∀ f ∈ schema.fields, textOrNull (old f.key) = textOrNull (raw f.key) :=
    fun f hf => textOrNull_decryptField (hfields f hf)
  rw [keepsAll, hc, hraw, hs]
  simp only [Bool.or_eq_true, decide_eq_true_eq, List.all_eq_true, Bool.not_eq_true']
  constructor
  · rintro (h | h) f hf hkind homitted
    · exact Or.inl h
    · refine Or.inr ?_
      rcases h f hf with (h | h) | h
      · rw [hkind] at h
        cases h
      · rw [homitted] at h
        cases h
      · rw [htext f hf, h]
  · intro h
    by_cases hp : schema.type = tlsProbeType
    · exact Or.inl hp
    · refine Or.inr fun f hf => ?_
      cases hkind : configKeptWhenOmitted f.type with
      | false => exact Or.inl (Or.inl rfl)
      | true =>
          cases homitted : config f.key with
          | some v => exact Or.inl (Or.inr rfl)
          | none => exact Or.inr (htext f hf ▸ (h f hf hkind homitted).resolve_left hp)

/-- Without a configuration in the request nothing is lost. -/
theorem notRepointed_of_no_config {rec : ConnectorRecord ω} {u : Updates ω}
    (hw : u.type.getD rec.type = rec.type ∧ u.url.getD rec.url = rec.url ∧
      u.verifyTLS.getD rec.verifyTLS = rec.verifyTLS ∧ u.category.getD rec.category = rec.category)
    (hdata : u.configData.isNone) : NotRepointed env req rec (rec.apply u) := by
  have hconfig : (rec.apply u).configData = rec.configData := by
    rw [ConnectorRecord.apply, Option.isNone_iff_eq_none.1 hdata, Option.none_or]
  have hvalue : ∀ k, valueAt env (rec.apply u) k = valueAt env rec k := by
    intro k
    rw [valueAt, hconfig, show (rec.apply u).type = rec.type from hw.1, valueAt]
  exact {
    type := hw.1
    url := hw.2.1
    verifyTLS := hw.2.2.1
    category := hw.2.2.2
    endpoints := fun _ _ k _ => hvalue k
    actions := fun _ _ h => hconfig ▸ h
    kept := fun _ _ f _ _ _ => hvalue f.key }

/-- The recipe of a custom connector is an endpoint key and not a secret, so the actions stay with
it. -/
theorem actions_of_recipe {rec : ConnectorRecord ω} {old cfg data : Config ω} {raw : Config ω}
    (hcustom : rec.type = customType) (hraw : rec.configData = some raw)
    (hold : parseConnectorConfig env.cipher env.schemas env.key rec.type rec.configData = some old)
    (hmarshal : marshalConnectorConfig env.cipher env.schemas env.key rec.type cfg = some data)
    (heq : effectiveValue (cfg (bytes "recipe")) = effectiveValue (old (bytes "recipe"))) :
    canonicalActions env.parseRecipe data = canonicalActions env.parseRecipe raw := by
  have hs : getTypeSchema env.schemas rec.type =
      some (customSchema env.parseRecipe env.customCheck) := hcustom ▸ env.custom_registered
  have hmem : { plainField "recipe" .textarea false with maxLength := maxRecipeBytes } ∈
      (customSchema env.parseRecipe env.customCheck : TypeSchema ω).fields := by
    simp [customSchema]
  rw [hraw] at hold
  have h₁ := parse_of_not_secret hs hold hmem rfl
  have h₂ := parse_of_not_secret hs (parse_marshal hmarshal) hmem rfl
  refine canonicalActions_congr ?_
  rw [show data (bytes "recipe") = cfg (bytes "recipe") from h₂.symm, heq,
    show old (bytes "recipe") = raw (bytes "recipe") from h₁]

/-- **When a connector is not repointed**: an update by a user who is not an instance admin leaves
the endpoint, the actions and the kept values as they are exactly if each value that is to be kept
is one that the code keeps. -/
theorem not_repointed_iff [DecidableEq ω] {rec : ConnectorRecord ω} {u : Updates ω}
    (hadmin : env.instanceAdmin = false) (h : update env (some rec) req = .ok u) :
    NotRepointed env req rec (rec.apply u) ↔ keepsAll env req rec = true := by
  have hw := update_spec hadmin h
  rcases hw.config with ⟨hnone, hdata⟩ | ⟨config, old, data, hc, hold, hmarshal, hdata, hendpoints⟩
  · constructor
    · intro _
      rw [keepsAll, Option.isNone_iff_eq_none.1 hnone]
    · exact fun _ => notRepointed_of_no_config ⟨hw.type, hw.url, hw.verifyTLS, hw.category⟩ hdata
  · have hafter := valueAt_apply hw.type hmarshal hdata
    have hbefore := valueAt_eq hold
    constructor
    · intro hn
      cases hs : getTypeSchema env.schemas rec.type with
      | none =>
          rw [keepsAll, hc, hs]
          cases rec.configData <;> rfl
      | some schema =>
          refine (keepsAll_iff hc hs hold).2 fun f hf hkind homitted => ?_
          by_contra hlost
          rw [not_or, Bool.not_eq_true] at hlost
          have hkept := hn.kept schema hs f hf hkind fun config' hc' => by
            rw [hc] at hc'
            exact Option.some.inj hc' ▸ homitted
          rw [hafter, hbefore, effective_kept hs hf hkind homitted] at hkept
          exact effectiveValue_carried_ne hlost.1 hlost.2 (Option.some.inj hkept)
    · intro hk
      have hendpoint : ∀ schema, getTypeSchema env.schemas rec.type = some schema →
          ∀ k ∈ schema.endpointConfigKeys, effectiveValue (effectiveConnectorConfig env.schemas old
            rec.type rec.type (some config) k) = effectiveValue (old k) := by
        intro schema hs k hkey
        obtain ⟨f, hf, rfl⟩ := List.mem_map.1 (schema.endpoint_mem k hkey)
        exact effective_endpoint hs hf (hendpoints schema hs _ hkey)
          ((keepsAll_iff hc hs hold).1 hk f hf)
      exact {
        type := hw.type
        url := hw.url
        verifyTLS := hw.verifyTLS
        category := hw.category
        endpoints := by
          intro schema hs k hkey
          rw [hafter, hbefore, hendpoint schema hs k hkey]
        actions := by
          intro hcustom actions hactions
          obtain ⟨raw, hraw, hact⟩ := Option.map_eq_some_iff.1 hactions
          rw [ConnectorRecord.apply, hdata, Option.some_or, Option.map_some,
            actions_of_recipe hcustom hraw hold hmarshal
              (hendpoint _ (hcustom ▸ env.custom_registered) _ (by simp [customSchema])), hact]
        kept := by
          intro schema hs f hf hkind homitted
          rw [hafter, hbefore, effective_kept hs hf hkind (homitted config hc),
            effectiveValue_carried ((keepsAll_iff hc hs hold).1 hk f hf hkind
              (homitted config hc))] }

/-- A server with the types that have endpoint keys, and a user who is not an instance admin. -/
def sampleEnv : UpdateEnv ℕ Unit where
  schemas := [customSchema (fun _ => .error []) fun _ => [], dockerSchema,
    tlsProbeSchema fun _ => []]
  cipher := ⟨fun _ _ p => p, fun _ _ c => some c, fun _ _ => none, fun _ _ _ => rfl⟩
  key := some ()
  parseRecipe := fun _ => .error []
  marshalBody := fun _ => none
  customCheck := fun _ => []
  now := 0
  instanceAdmin := false
  elevated := false
  connectorType := fun _ => none
  role := fun _ => []
  custom_registered := by rfl

/-- A Docker connector with a host and, under one more key, a value. -/
def dockerRecord (key : Bytes) (v : ConfigValue ℕ) : ConnectorRecord ℕ where
  name := bytes "lab"
  type := dockerType
  url := bytes "http://lab"
  owner := []
  verifyTLS := true
  enabled := true
  category := bytes "containers_paas"
  configData := some fun k =>
    if k = bytes "host" then some (.text (bytes "tcp://lab:2375"))
    else if k = key then some v
    else none
  scheduleSeconds := none
  nextRunAt := []
  userExpiresAt := none
  rotationMaxAgeDays := none
  secretRotatedAt := []

/-- A request that resends the host alone. -/
def resendHost : UpdateConnectorRequest ℕ where
  name := none
  url := none
  owner := none
  verifyTLS := none
  config := some fun k => if k = bytes "host" then some (.text (bytes "tcp://lab:2375")) else none
  enabled := none
  category := none
  type := none
  scheduleSeconds := .absent
  userExpiresAt := .absent
  rotationMaxAgeDays := .absent

theorem not_repointed_iff_sample :
    ∃ u, update sampleEnv (some (dockerRecord (bytes "ssh_user") (.text (bytes "root"))))
        resendHost = .ok u ∧
      (NotRepointed sampleEnv resendHost (dockerRecord (bytes "ssh_user") (.text (bytes "root")))
          ((dockerRecord (bytes "ssh_user") (.text (bytes "root"))).apply u) ↔
        keepsAll sampleEnv resendHost (dockerRecord (bytes "ssh_user") (.text (bytes "root"))) =
          true) := by
  have hok : okAnd (fun _ => true) (update sampleEnv (some (dockerRecord (bytes "ssh_user")
      (.text (bytes "root")))) resendHost) = true := by decide
  obtain ⟨u, hu, -⟩ := exists_of_okAnd hok
  exact ⟨u, hu, not_repointed_iff rfl hu⟩

/-- **A secret that was stored as a number is lost** by an update that omits it. -/
theorem number_secret_lost :
    ∃ u, update sampleEnv (some (dockerRecord (bytes "ssh_password") (.other 12345)))
        resendHost = .ok u ∧
      ¬NotRepointed sampleEnv resendHost (dockerRecord (bytes "ssh_password") (.other 12345))
          ((dockerRecord (bytes "ssh_password") (.other 12345)).apply u) := by
  have hok : okAnd (fun u => decide (valueAt sampleEnv
      ((dockerRecord (bytes "ssh_password") (.other 12345)).apply u) (bytes "ssh_password") =
        some none)) (update sampleEnv (some (dockerRecord (bytes "ssh_password") (.other 12345)))
          resendHost) = true := by decide
  obtain ⟨u, hu, hvalue⟩ := exists_of_okAnd hok
  refine ⟨u, hu, fun hn => ?_⟩
  have hkept := hn.kept dockerSchema rfl (plainField "ssh_password" .password false)
    (by simp [dockerSchema]) rfl fun config hc => Option.some.inj hc ▸ rfl
  rw [show (plainField "ssh_password" .password false).key = bytes "ssh_password" from rfl,
    of_decide_eq_true hvalue] at hkept
  exact absurd hkept (by decide)

end WiseLabz.Connector
