/-
**The connectors that the configuration declares.**

An entry is applied to the tables in one transaction, which creates, adopts or updates its
connector, and then in another one, which brings the declared grants up to date; the change of the
grants is audited after that.  Each call of the store may fail.  An entry whose application returns
an error is reported as skipped, though the first transaction may be through.

Main definitions:

* `Reconcile.Tables` — connectors, grants and audit rows;
* `Reconcile.firstTransaction`, `Reconcile.syncGrants` — the two parts of an application;
* `Reconcile.apply` — **the application of an entry**;
* `Reconcile.syncReached`, `Reconcile.grantsAudited` — which calls of the second part go through;
* `Reconcile.AppliedBefore` — the entry is unchanged since it was applied.

Main results:

* `Reconcile.firstTransaction_eq_ok` — the first part leaves the tables if the entry was applied
  before, and only then;
* `Reconcile.syncGrants_of_not_reached` — what the second part leaves when it fails;
* `Reconcile.skipped_unwritten_iff` — **when an entry that is skipped has written nothing**;
* `Reconcile.skipped_written` — it may have.
-/

import WiseLabz.Lib.Bytes
import WiseLabz.Lib.Dict
import WiseLabz.Lib.Fallible
import WiseLabz.Lib.Table
import Mathlib.Tactic.Tauto

set_option relaxedAutoImplicit false
set_option autoImplicit false

namespace WiseLabz.Reconcile

open Lib

/-! ### Tables -/

structure ConnectorRecord where
  id : Bytes
  name : Bytes
  category : Bytes
  type : Bytes
  url : Bytes
  verifyTLS : Bool
  configData : Bytes
  enabled : Bool
  scheduleSeconds : Option ℤ
  owner : Bytes
  userExpiresAt : Bytes
  rotationMaxAgeDays : Option ℤ
  managedBy : Bytes
  configHash : Bytes
  nextRunAt : Option Bytes
  secretRotatedAt : Option Bytes
  deriving DecidableEq

structure ConnectorGrant where
  userID : Bytes
  connectorID : Bytes
  role : Bytes
  source : Bytes
  deriving DecidableEq

/-- The unique columns of a grant. -/
def ConnectorGrant.key (g : ConnectorGrant) : Bytes × Bytes × Bytes :=
  (g.userID, g.connectorID, g.source)

structure UserRecord where
  id : Bytes
  username : Bytes
  instanceAdminRole : Bytes
  disabled : Bool
  deriving DecidableEq

/-- A row of the audit log, with the texts under the keys of its detail. -/
structure AuditRecord where
  action : Bytes
  targetID : Bytes
  detail : List (Bytes × List Bytes)
  deriving DecidableEq

structure Tables where
  connectors : List ConnectorRecord
  grants : List ConnectorGrant
  audits : List AuditRecord
  users : List UserRecord
  deriving DecidableEq

/-! ### Entries -/

/-- A value of a connector's configuration. -/
inductive ConfigValue
  | null
  | string (s : Bytes)
  | other (json : Bytes)
  deriving DecidableEq

abbrev Config := Dict Bytes ConfigValue

structure DeclaredGrant where
  user : Bytes
  role : Bytes

/-- A declared connector, or why it could not be resolved. -/
structure ResolvedConnector where
  name : Bytes
  type : Bytes
  url : Bytes
  verifyTLS : Bool
  enabled : Bool
  scheduleSeconds : ℤ
  config : Config
  grants : List DeclaredGrant
  owner : Bytes
  userExpiresAt : Bytes
  rotationMaxAgeDays : ℤ
  err : Option Bytes

inductive Action
  | created
  | updated
  | adopted
  | unchanged
  deriving DecidableEq

structure Result where
  connectorID : Bytes
  action : Action
  warnings : List Bytes

/-- The calls of the store that an application makes; a user is looked up for every declared
grant. -/
inductive Site
  | getConnector
  | lock
  | listConnectorsByName
  | createConnector
  | updateConnector
  | listUsers
  | grantAdmin (userID : Bytes)
  | audit
  | auditRecipeActions
  | commit
  | getUserByUsername (i : ℕ)
  | syncConfigConnectorGrants
  | auditGrants
  deriving DecidableEq

inductive ApplyError
  /-- The entry is not valid; the import of a probe is not. -/
  | invalid (msg : Bytes)
  | invalidImport (msg : Bytes)
  /-- The connector that a probe imports from is skipped. -/
  | importFailed (name : Bytes)
  /-- More than one connector could be meant. -/
  | ambiguous (count : ℕ)
  | store (site : Site)
  deriving DecidableEq

/-- What else an application is made of: checks and texts of entries and configurations, over the
actions `A` of recipes. -/
structure Library (A : Type) where
  trimSpace : Bytes → Bytes
  validateDeclared : Bytes → Config → Except Bytes Unit
  configCategory : Bytes → Config → Except Bytes Bytes
  fingerprint : ResolvedConnector → Except Bytes Bytes
  recipeActions : Bytes → Config → Except Bytes A
  storedRecipeActions : ConnectorRecord → Except Bytes A
  noActions : A
  /-- The actions that are added, changed and removed. -/
  diffActions : A → A → List Bytes × List Bytes × List Bytes
  isCredentialRefresherType : Bytes → Bool
  parseConnectorConfig : Bytes → Bytes → Except Bytes Config
  secretFieldsChanged : Bytes → Bytes → Config → Except Bytes Bool
  marshalConnectorConfig : Bytes → Config → Except Bytes Bytes
  newID : Bytes
  now : Bytes

def managedByUI : Bytes := bytes "ui"

def managedByConfig : Bytes := bytes "config"

def grantSourceManual : Bytes := bytes "manual"

def grantSourceConfig : Bytes := bytes "config"

/-! ### The first transaction -/

section Apply

variable {A : Type} (lib : Library A)

-- which calls of the store fail
variable (fails : Site → Bool)

def call (site : Site) : Except ApplyError Unit :=
  if fails site then .error (.store site) else .ok ()

/-- An error of a check. -/
def check {α : Type} (x : Except Bytes α) : Except ApplyError α := x.mapError .invalid

/-- `match`: the connector that an entry with the name applies to. -/
def matchConnector (db : Tables) (name : Bytes) : Except ApplyError (Option ConnectorRecord) :=
  let rows := db.connectors.filter fun r => r.name = name
  let managed := rows.filter fun r => r.managedBy ≠ managedByUI
  let candidates :=
    if managed = [] then rows.filter fun r => r.managedBy = managedByUI else managed
  match candidates with
  | [] => .ok none
  | [r] => .ok (some r)
  | _ => .error (.ambiguous candidates.length)

/-- `schedule` and `rotationDays`. -/
def schedule (n : ℤ) : Option ℤ := if n ≤ 0 then none else some n

def sameSchedule (current : Option ℤ) (declared : ℤ) : Bool :=
  match current with
  | none => declared ≤ 0
  | some n => n = declared

def Tables.audit (db : Tables) (action connectorID : Bytes) (detail : List (Bytes × List Bytes)) :
    Tables :=
  { db with audits := db.audits ++ [⟨action, connectorID, detail⟩] }

def Tables.upsertGrant (db : Tables) (g : ConnectorGrant) : Tables :=
  { db with grants := put ConnectorGrant.key db.grants g }

/-- The instance admins that are not disabled become operators. -/
def grantAdmins (db : Tables) (connectorID : Bytes) : Except ApplyError Tables := do
  call fails .listUsers
  (((db.users.take 10000).filter fun u =>
    u.instanceAdminRole = bytes "admin" && !u.disabled)).foldlM (fun db u => do
      call fails (.grantAdmin u.id)
      return db.upsertGrant ⟨u.id, connectorID, bytes "operator", grantSourceManual⟩) db

def auditRecipeActionDiff (db : Tables) (connectorID name : Bytes)
    (diff : List Bytes × List Bytes × List Bytes) : Except ApplyError Tables :=
  if diff.1.length + diff.2.1.length + diff.2.2.length = 0 then .ok db
  else do
    call fails .auditRecipeActions
    return db.audit (bytes "connector.recipe_actions_changed") connectorID
      [(bytes "name", [name]), (bytes "added", diff.1), (bytes "changed", diff.2.1),
        (bytes "removed", diff.2.2)]

def create (db : Tables) (e : ResolvedConnector) (category hash : Bytes) :
    Except ApplyError (Tables × Result) := do
  let newActions ← check (lib.recipeActions e.type e.config)
  let data ← check (lib.marshalConnectorConfig e.type e.config)
  let r : ConnectorRecord :=
    { id := lib.newID, name := e.name, category := category, type := e.type, url := e.url
      verifyTLS := e.verifyTLS, configData := if data = [] then bytes "{}" else data
      enabled := e.enabled
      scheduleSeconds := schedule e.scheduleSeconds, owner := e.owner
      userExpiresAt := e.userExpiresAt, rotationMaxAgeDays := schedule e.rotationMaxAgeDays
      managedBy := managedByConfig, configHash := hash, nextRunAt := none
      -- `CreateConnector` takes its own `CreatedAt`
      secretRotatedAt := some lib.now }
  call fails .createConnector
  let db ← grantAdmins fails { db with connectors := db.connectors ++ [r] } r.id
  call fails .audit
  let db := db.audit (bytes "connector.config_create") r.id
    [(bytes "name", [r.name]), (bytes "type", [r.type])]
  let db ← auditRecipeActionDiff fails db r.id r.name (lib.diffActions lib.noActions newActions)
  return (db, ⟨r.id, .created, []⟩)

/-- What an update changes, without secret values. -/
def changedFields (r : ConnectorRecord) (e : ResolvedConnector) (secretChanged : Bool) :
    List Bytes :=
  ((([(decide (r.type ≠ e.type), "type"), (decide (r.url ≠ e.url), "url"),
    (decide (r.verifyTLS ≠ e.verifyTLS), "verifyTls"), (decide (r.enabled ≠ e.enabled), "enabled"),
    (!sameSchedule r.scheduleSeconds e.scheduleSeconds, "scheduleSeconds"),
    (decide (r.owner ≠ e.owner), "owner"),
    (decide (r.userExpiresAt ≠ e.userExpiresAt), "userExpiresAt"),
    (!sameSchedule r.rotationMaxAgeDays e.rotationMaxAgeDays, "rotationMaxAgeDays"),
    (secretChanged, "config.secret")] : List (Bool × String)).filter (·.1)).map fun f => bytes f.2)

/-- What a connector has obtained itself is kept where the entry does not declare it. -/
def keptConfig (e : ResolvedConnector) (r : ConnectorRecord) : Except ApplyError Config :=
  if lib.isCredentialRefresherType e.type then
    (check (lib.parseConnectorConfig r.type r.configData)).map fun current =>
      e.config.entries.foldl (fun c kv => c.set kv.1 kv.2) current
  else .ok e.config

/-- The configuration that is stored, and whether a secret changes with it. -/
def mergedConfig (e : ResolvedConnector) (r : ConnectorRecord) :
    Except ApplyError (Config × Bool) :=
  if r.type ≠ e.type then .ok (e.config, true)
  else do
    let newConfig ← keptConfig lib e r
    let rotated ← check (lib.secretFieldsChanged r.type r.configData newConfig)
    return (newConfig, rotated)

/-- A connector that the interface managed is shared with the admins. -/
def adminGrants (db : Tables) (r : ConnectorRecord) : Except ApplyError Tables :=
  if r.managedBy = managedByUI then grantAdmins fails db r.id else .ok db

def update (db : Tables) (e : ResolvedConnector) (r : ConnectorRecord) (category hash : Bytes) :
    Except ApplyError (Tables × Result) := do
  let oldActions ← check (lib.storedRecipeActions r)
  let newActions ← check (lib.recipeActions e.type e.config)
  let (newConfig, rotated) ← mergedConfig lib e r
  let data ← check (lib.marshalConnectorConfig e.type newConfig)
  let r' : ConnectorRecord :=
    { r with
      type := e.type, category := category, url := e.url, verifyTLS := e.verifyTLS
      enabled := e.enabled, scheduleSeconds := schedule e.scheduleSeconds, owner := e.owner
      userExpiresAt := e.userExpiresAt, rotationMaxAgeDays := schedule e.rotationMaxAgeDays
      configData := data, managedBy := managedByConfig, configHash := hash
      nextRunAt := if sameSchedule r.scheduleSeconds e.scheduleSeconds then r.nextRunAt else none
      secretRotatedAt := if rotated then some lib.now else r.secretRotatedAt }
  call fails .updateConnector
  let db ← adminGrants fails
    { db with connectors := db.connectors.map fun c => if c.id = r.id then r' else c } r
  call fails .audit
  let db := db.audit
    (bytes (if r.managedBy ≠ managedByConfig then "connector.config_adopt"
      else "connector.config_update")) r.id
    [(bytes "name", [r.name]), (bytes "previousManagedBy", [r.managedBy]),
      (bytes "fields", changedFields r e rotated)]
  let db ← auditRecipeActionDiff fails db r.id r.name (lib.diffActions oldActions newActions)
  return (db, ⟨r.id, if r.managedBy ≠ managedByConfig then .adopted else .updated, []⟩)

/-- The entry is new, or unchanged since it was applied, or changed. -/
def createOrUpdate (db : Tables) (e : ResolvedConnector) (category hash : Bytes) :
    Option ConnectorRecord → Except ApplyError (Tables × Result)
  | none => create lib fails db e category hash
  | some r =>
      if r.managedBy = managedByConfig ∧ r.configHash = hash then .ok (db, ⟨r.id, .unchanged, []⟩)
      else update lib fails db e r category hash

/-- **The first transaction**; an error rolls it back. -/
def firstTransaction (db : Tables) (e : ResolvedConnector) (category hash : Bytes) :
    Except ApplyError (Tables × Result) := do
  call fails .lock
  call fails .listConnectorsByName
  let r ← matchConnector db e.name
  let result ← createOrUpdate lib fails db e category hash r
  call fails .commit
  return result

/-! ### The declared grants -/

/-- The users that the declared grants name, with their roles, and the warnings. -/
def desiredGrants (db : Tables) (grants : List DeclaredGrant) : Dict Bytes Bytes × List Bytes :=
  grants.foldl (fun dw g =>
    match db.users.find? fun u => u.username = g.user with
    | none =>
        (dw.1, dw.2 ++ [bytes "grant skipped: user \"" ++ g.user ++ bytes "\" does not exist"])
    | some u => (dw.1.set u.id g.role, dw.2)) (.empty, [])

/-- The first declared grant whose user cannot be looked up. -/
def failedLookup (grants : List DeclaredGrant) : Option ℕ :=
  (List.range grants.length).find? fun i => fails (.getUserByUsername i)

/-- The rows under the declared grants of a connector. -/
def configGrants (db : Tables) (connectorID : Bytes) : List ConnectorGrant :=
  db.grants.filter fun g => g.connectorID = connectorID ∧ g.source = grantSourceConfig

/-- The grants that are no longer declared. -/
def removedGrants (db : Tables) (connectorID : Bytes) (desired : Dict Bytes Bytes) :
    List ConnectorGrant :=
  (configGrants db connectorID).filter fun g => (desired.get g.userID).isNone

/-- The grants that are missing or have another role. -/
def addedGrants (db : Tables) (connectorID : Bytes) (desired : Dict Bytes Bytes) :
    List ConnectorGrant :=
  (desired.entries.filter fun d =>
    ((lookup ConnectorGrant.userID (configGrants db connectorID) d.1).map
      ConnectorGrant.role).getD [] ≠ d.2).map fun d =>
        ⟨d.1, connectorID, d.2, grantSourceConfig⟩

/-- `SyncConfigConnectorGrants`. -/
def syncConfigConnectorGrants (db : Tables) (connectorID : Bytes) (desired : Dict Bytes Bytes) :
    Tables :=
  let removed := removedGrants db connectorID desired
  { db with
    grants := putAll ConnectorGrant.key (db.grants.filter fun g => g ∉ removed)
      (addedGrants db connectorID desired) }

/-- `diff.Empty()` -/
def sameGrants (db : Tables) (connectorID : Bytes) (desired : Dict Bytes Bytes) : Bool :=
  removedGrants db connectorID desired = [] && addedGrants db connectorID desired = []

/-- **The second part**: the tables after it, and what it returns. -/
def syncGrants (db : Tables) (e : ResolvedConnector) (res : Result) :
    Tables × Except ApplyError Result :=
  match failedLookup fails e.grants with
  | some i => (db, .error (.store (.getUserByUsername i)))
  | none =>
      if fails .syncConfigConnectorGrants then (db, .error (.store .syncConfigConnectorGrants))
      else
        let (desired, warnings) := desiredGrants db e.grants
        let res := { res with warnings := res.warnings ++ warnings }
        let db' := syncConfigConnectorGrants db res.connectorID desired
        if sameGrants db res.connectorID desired then (db', .ok res)
        else if fails .auditGrants then (db', .error (.store .auditGrants))
        else
          (db'.audit (bytes "connector.config_grants") res.connectorID
            [(bytes "name", [e.name]),
              (bytes "added",
                [bytes (toString (addedGrants db res.connectorID desired).length)]),
              (bytes "removed",
                [bytes (toString (removedGrants db res.connectorID desired).length)])], .ok res)

/-! ### An entry -/

/-- What `Run` has for an entry so far: nothing, or what its application returned. -/
abbrev Outcome := Option (Except ApplyError Result)

/-- A string under a key, trimmed, or empty. -/
def configString (c : Config) (key : Bytes) : Bytes :=
  match c.get key with
  | some (.string s) => lib.trimSpace s
  | _ => []

/-- A value that is neither a string nor null. -/
def wrongType (c : Config) (key : Bytes) : Bool :=
  match c.get key with
  | some (.other _) => true
  | _ => false

def importConnector : Bytes := bytes "import_connector"

def importConnectorID : Bytes := bytes "import_connector_id"

/-- The first entry with a name, and what it has come to. -/
def targetOf (entries : List (ResolvedConnector × Outcome)) (name : Bytes) :
    Option (ResolvedConnector × Outcome) :=
  entries.find? fun t => t.1.name = name

/-- `resolveProbeImport`: the configuration in which a name is replaced by the connector's id. -/
def resolveProbeImport (db : Tables) (e : ResolvedConnector)
    (entries : List (ResolvedConnector × Outcome)) : Except ApplyError Config :=
  let name := configString lib e.config importConnector
  let id := configString lib e.config importConnectorID
  if wrongType e.config importConnector then
    .error (.invalidImport (bytes "import_connector must be a connector name"))
  else if wrongType e.config importConnectorID then
    .error (.invalidImport (bytes "import_connector_id must be a connector ID"))
  else if name ≠ [] ∧ id ≠ [] then
    .error (.invalidImport
      (bytes "import_connector and import_connector_id are mutually exclusive"))
  else if name ≠ [] then
    if name = e.name then .error (.invalidImport (bytes "probe cannot import from itself"))
    else
      match targetOf entries name with
      | none => .error (.invalidImport (bytes "referenced connector not found"))
      | some (_, some (.error _)) => .error (.importFailed name)
      | some (target, outcome) =>
          if target.type ≠ bytes "traefik" then
            .error (.invalidImport (bytes "referenced connector must be a Traefik connector"))
          else
            match outcome with
            | some (.ok res) =>
                if res.connectorID = [] then
                  .error (.invalidImport (bytes "referenced connector has no connector ID"))
                else
                  .ok ((e.config.erase importConnector).set importConnectorID
                    (.string res.connectorID))
            | _ => .error (.invalidImport (bytes "referenced connector has no connector ID"))
  else if id ≠ [] then
    if fails .getConnector then .error (.store .getConnector)
    else
      match db.connectors.find? fun r => r.id = id with
      | none => .error (.invalidImport (bytes "referenced connector not found"))
      | some r =>
          if r.type ≠ bytes "traefik" then
            .error (.invalidImport (bytes "referenced connector must be a Traefik connector"))
          else .ok (e.config.erase importConnector)
  else .ok (e.config.erase importConnector)

/-- The configuration of an entry, with the import of a probe resolved. -/
def resolvedConfig (db : Tables) (e : ResolvedConnector)
    (entries : List (ResolvedConnector × Outcome)) : Except ApplyError Config :=
  if e.type = bytes "tlsprobe" then resolveProbeImport lib fails db e entries else .ok e.config

/-- The checks of an entry before anything is written: the entry with its resolved configuration,
its category and its fingerprint. -/
def prepare (db : Tables) (e : ResolvedConnector) (entries : List (ResolvedConnector × Outcome)) :
    Except ApplyError (ResolvedConnector × Bytes × Bytes) :=
  match e.err with
  | some msg => .error (.invalid msg)
  | none => do
      check (lib.validateDeclared e.type e.config)
      let config ← resolvedConfig lib fails db e entries
      let category ← check (lib.configCategory e.type config)
      let hash ← check (lib.fingerprint { e with config := config })
      return ({ e with config := config }, category, hash)

/-- **`apply`**: the tables after it, and what it returns. -/
def apply (db : Tables) (e : ResolvedConnector) (entries : List (ResolvedConnector × Outcome)) :
    Tables × Except ApplyError Result :=
  match prepare lib fails db e entries with
  | .error err => (db, .error err)
  | .ok (e, category, hash) =>
      match firstTransaction lib fails db e category hash with
      | .error err => (db, .error err)
      | .ok (db, res) => syncGrants fails db e res

/-! ### What the first transaction leaves -/

variable {lib} {fails} {db db' : Tables} {e : ResolvedConnector} {category hash : Bytes}
  {res : Result}

/-- The users and the grants that the configuration declares are the same. -/
structure SameDeclared (db db' : Tables) : Prop where
  users : db'.users = db.users
  grants : ∀ connectorID, configGrants db' connectorID = configGrants db connectorID

theorem SameDeclared.refl (db : Tables) : SameDeclared db db := ⟨rfl, fun _ => rfl⟩

theorem SameDeclared.trans {db db₁ db₂ : Tables} (h : SameDeclared db db₁)
    (h' : SameDeclared db₁ db₂) : SameDeclared db db₂ :=
  ⟨h'.users.trans h.users, fun id => (h'.grants id).trans (h.grants id)⟩

theorem SameDeclared.audit (h : SameDeclared db db') (action connectorID : Bytes)
    (detail : List (Bytes × List Bytes)) :
    SameDeclared db (db'.audit action connectorID detail) :=
  ⟨h.users, h.grants⟩

/-- The tables after a part of the first transaction that writes no audit row. -/
theorem grantAdmins_eq_ok {connectorID : Bytes} (h : grantAdmins fails db connectorID = .ok db') :
    db'.audits = db.audits ∧ SameDeclared db db' := by
  unfold grantAdmins at h
  obtain ⟨-, -, hfold⟩ := bind_eq_ok.1 h
  clear h
  generalize (db.users.take 10000).filter _ = users at hfold
  induction users generalizing db with
  | nil =>
      obtain rfl := pure_eq_ok.1 hfold
      exact ⟨rfl, .refl _⟩
  | cons u users ih =>
      rw [List.foldlM_cons] at hfold
      obtain ⟨db₁, h₁, hrest⟩ := bind_eq_ok.1 hfold
      obtain ⟨-, -, h₁⟩ := bind_eq_ok.1 h₁
      obtain rfl := pure_eq_ok.1 h₁
      obtain ⟨haudits, hsame⟩ := ih hrest
      -- the grants of the admins are no declared ones
      have hgrants : ∀ id, configGrants (db.upsertGrant
          ⟨u.id, connectorID, bytes "operator", grantSourceManual⟩) id = configGrants db id := by
        intro id
        refine filter_put (fun x hkey => ?_) db.grants
        have hsource : x.source = grantSourceManual := congrArg (fun k => k.2.2) hkey
        rw [decide_eq_false_iff_not, hsource]
        exact fun hconfig => absurd hconfig.2 (by decide)
      have hone : SameDeclared db (db.upsertGrant
          ⟨u.id, connectorID, bytes "operator", grantSourceManual⟩) := ⟨rfl, hgrants⟩
      exact ⟨haudits.trans rfl, hone.trans hsame⟩

theorem adminGrants_eq_ok {r : ConnectorRecord} (h : adminGrants fails db r = .ok db') :
    db'.audits = db.audits ∧ SameDeclared db db' := by
  unfold adminGrants at h
  split at h
  · exact grantAdmins_eq_ok h
  · obtain rfl := Except.ok.inj h
    exact ⟨rfl, .refl _⟩

theorem auditRecipeActionDiff_eq_ok {connectorID name : Bytes}
    {diff : List Bytes × List Bytes × List Bytes}
    (h : auditRecipeActionDiff fails db connectorID name diff = .ok db') :
    db.audits.length ≤ db'.audits.length ∧ SameDeclared db db' := by
  rw [auditRecipeActionDiff] at h
  split at h
  · obtain rfl := Except.ok.inj h
    exact ⟨le_rfl, .refl _⟩
  · obtain ⟨-, -, h⟩ := bind_eq_ok.1 h
    obtain rfl := pure_eq_ok.1 h
    rw [Tables.audit, List.length_append]
    exact ⟨Nat.le_add_right _ _, (SameDeclared.refl db).audit _ _ _⟩

/-- A connector that is created is audited. -/
theorem create_eq_ok (h : create lib fails db e category hash = .ok (db', res)) :
    res.connectorID = lib.newID ∧ SameDeclared db db' ∧ db.audits.length < db'.audits.length := by
  obtain ⟨newActions, -, h⟩ := bind_eq_ok.1 h
  obtain ⟨data, -, h⟩ := bind_eq_ok.1 h
  obtain ⟨-, -, h⟩ := bind_eq_ok.1 h
  obtain ⟨db₁, hgrants, h⟩ := bind_eq_ok.1 h
  obtain ⟨-, -, h⟩ := bind_eq_ok.1 h
  obtain ⟨db₂, haudit, h⟩ := bind_eq_ok.1 h
  obtain ⟨rfl, rfl⟩ := Prod.mk.inj (pure_eq_ok.1 h)
  obtain ⟨haudits, hsame⟩ := grantAdmins_eq_ok hgrants
  obtain ⟨hle, hsame'⟩ := auditRecipeActionDiff_eq_ok haudit
  rw [Tables.audit, List.length_append, haudits] at hle
  have hwritten : SameDeclared db db₁ := ⟨hsame.users, hsame.grants⟩
  exact ⟨rfl, (hwritten.audit _ _ _).trans hsame', Nat.lt_of_succ_le hle⟩

/-- A connector that is updated is audited. -/
theorem update_eq_ok {r : ConnectorRecord}
    (h : update lib fails db e r category hash = .ok (db', res)) :
    res.connectorID = r.id ∧ SameDeclared db db' ∧ db.audits.length < db'.audits.length := by
  obtain ⟨oldActions, -, h⟩ := bind_eq_ok.1 h
  obtain ⟨newActions, -, h⟩ := bind_eq_ok.1 h
  obtain ⟨⟨newConfig, rotated⟩, -, h⟩ := bind_eq_ok.1 h
  obtain ⟨data, -, h⟩ := bind_eq_ok.1 h
  obtain ⟨-, -, h⟩ := bind_eq_ok.1 h
  obtain ⟨db₁, hgrants, h⟩ := bind_eq_ok.1 h
  obtain ⟨-, -, h⟩ := bind_eq_ok.1 h
  obtain ⟨db₂, haudit, h⟩ := bind_eq_ok.1 h
  obtain ⟨rfl, rfl⟩ := Prod.mk.inj (pure_eq_ok.1 h)
  obtain ⟨haudits, hsame⟩ := adminGrants_eq_ok hgrants
  obtain ⟨hle, hsame'⟩ := auditRecipeActionDiff_eq_ok haudit
  rw [Tables.audit, List.length_append, haudits] at hle
  have hwritten : SameDeclared db db₁ := ⟨hsame.users, hsame.grants⟩
  exact ⟨rfl, (hwritten.audit _ _ _).trans hsame', Nat.lt_of_succ_le hle⟩

variable (lib)

/-- The id of the connector that an entry with the name applies to, which may be new. -/
def connectorOf (db : Tables) (name : Bytes) : Bytes :=
  match matchConnector db name with
  | .ok (some r) => r.id
  | _ => lib.newID

variable {lib}

/-- The entry is unchanged since it was applied. -/
def AppliedBefore (db : Tables) (name hash : Bytes) : Prop :=
  ∃ r, matchConnector db name = .ok (some r) ∧ r.managedBy = managedByConfig ∧ r.configHash = hash

/-- **What the first transaction leaves**: the tables, if the entry was applied before, and else
more audit rows; the declared grants are as they were. -/
theorem firstTransaction_eq_ok
    (h : firstTransaction lib fails db e category hash = .ok (db', res)) :
    res.connectorID = connectorOf lib db e.name ∧ SameDeclared db db' ∧
      ((AppliedBefore db e.name hash ∧ db' = db) ∨
        (¬ AppliedBefore db e.name hash ∧ db.audits.length < db'.audits.length)) := by
  obtain ⟨-, -, h⟩ := bind_eq_ok.1 h
  obtain ⟨-, -, h⟩ := bind_eq_ok.1 h
  obtain ⟨r, hmatch, h⟩ := bind_eq_ok.1 h
  obtain ⟨result, hresult, h⟩ := bind_eq_ok.1 h
  obtain ⟨-, -, h⟩ := bind_eq_ok.1 h
  obtain rfl := pure_eq_ok.1 h
  rw [connectorOf, hmatch]
  cases r with
  | none =>
      obtain ⟨hid, hsame, hlt⟩ := create_eq_ok hresult
      refine ⟨hid, hsame, .inr ⟨?_, hlt⟩⟩
      rintro ⟨r, hr, -⟩
      rw [hmatch] at hr
      cases hr
  | some r =>
      unfold createOrUpdate at hresult
      dsimp only at hresult
      split at hresult
      · next hbefore =>
          obtain ⟨rfl, rfl⟩ := Prod.mk.inj (Except.ok.inj hresult)
          exact ⟨rfl, .refl _, .inl ⟨⟨r, hmatch, hbefore⟩, rfl⟩⟩
      · next hchanged =>
          obtain ⟨hid, hsame, hlt⟩ := update_eq_ok hresult
          refine ⟨hid, hsame, .inr ⟨?_, hlt⟩⟩
          rintro ⟨r', hr', hbefore⟩
          obtain rfl := Option.some.inj (Except.ok.inj (hmatch.symm.trans hr'))
          exact hchanged hbefore

/-! ### What the second part leaves -/

/-- The rows of the grants that are added have keys of their own. -/
theorem addedGrants_nodup (db : Tables) (connectorID : Bytes) (desired : Dict Bytes Bytes) :
    KeyNodup ConnectorGrant.key (addedGrants db connectorID desired) := by
  rw [KeyNodup, addedGrants, List.map_map]
  have hkey : (ConnectorGrant.key ∘ fun d : Bytes × Bytes =>
      (⟨d.1, connectorID, d.2, grantSourceConfig⟩ : ConnectorGrant)) =
        (fun u => (u, connectorID, grantSourceConfig)) ∘ Prod.fst := rfl
  rw [hkey, ← List.map_map]
  refine (List.Nodup.map fun u u' h => (Prod.mk.inj h).1) ?_
  exact (desired.nodup.filter _)

theorem lookup_configGrants (db : Tables) (connectorID userID : Bytes) :
    lookup ConnectorGrant.userID (configGrants db connectorID) userID =
      lookup ConnectorGrant.key db.grants (userID, connectorID, grantSourceConfig) := by
  rw [lookup, lookup, configGrants, List.find?_filter]
  congr 1
  funext g
  simp only [ConnectorGrant.key, Prod.mk.injEq]
  refine decide_eq_decide.2 ?_
  rw [decide_eq_true_iff, decide_eq_true_iff]
  tauto

/-- **A change of the grants changes the rows.** -/
theorem syncConfigConnectorGrants_ne {connectorID : Bytes} {desired : Dict Bytes Bytes}
    (h : sameGrants db connectorID desired = false) :
    (syncConfigConnectorGrants db connectorID desired).grants ≠ db.grants := by
  intro heq
  rw [sameGrants, Bool.and_eq_false_iff, decide_eq_false_iff_not, decide_eq_false_iff_not] at h
  rcases h with hremoved | hadded
  · -- a row that is removed is not one that is added
    obtain ⟨g, hg⟩ := List.exists_mem_of_ne_nil _ hremoved
    obtain ⟨hmem, hnone⟩ := List.mem_filter.1 hg
    have hin : g ∈ (syncConfigConnectorGrants db connectorID desired).grants :=
      heq ▸ List.mem_of_mem_filter hmem
    rcases mem_putAll hin with hin | hin
    · obtain ⟨d, hd, rfl⟩ := List.mem_map.1 hin
      have hkey : d.1 ∈ desired.keys := List.mem_map_of_mem (List.mem_of_mem_filter hd)
      rw [Dict.mem_keys] at hkey
      rw [Option.isNone_iff_eq_none] at hnone
      rw [hnone] at hkey
      cases hkey
    · exact of_decide_eq_true (List.mem_filter.1 hin).2 hg
  · -- a row that is added has the role that it had not
    obtain ⟨g, hg⟩ := List.exists_mem_of_ne_nil _ hadded
    have hnew : lookup ConnectorGrant.key
        (syncConfigConnectorGrants db connectorID desired).grants g.key = some g := by
      rw [syncConfigConnectorGrants]
      dsimp only
      rw [lookup_putAll (addedGrants_nodup db connectorID desired),
        (addedGrants_nodup db connectorID desired).lookup_of_mem hg, Option.some_or]
    rw [heq] at hnew
    obtain ⟨d, hd, rfl⟩ := List.mem_map.1 hg
    have hrole := of_decide_eq_true (List.mem_filter.1 hd).2
    rw [lookup_configGrants] at hrole
    have hold : lookup ConnectorGrant.key db.grants (d.1, connectorID, grantSourceConfig) =
      some ⟨d.1, connectorID, d.2, grantSourceConfig⟩ := hnew
    rw [hold] at hrole
    exact hrole rfl

variable (fails)

/-- The lookups and the transaction of the second part go through. -/
def syncReached (e : ResolvedConnector) : Prop :=
  (∀ i < e.grants.length, fails (.getUserByUsername i) = false) ∧
    fails .syncConfigConnectorGrants = false

/-- The audit row of the second part is written, or is not needed. -/
def grantsAudited (db : Tables) (e : ResolvedConnector) (connectorID : Bytes) : Prop :=
  fails .auditGrants = false ∨ sameGrants db connectorID (desiredGrants db e.grants).1 = true

variable {fails}

/-- What is declared makes the difference, and nothing else of the tables. -/
theorem SameDeclared.grantsAudited_iff (h : SameDeclared db db') {connectorID : Bytes} :
    grantsAudited fails db' e connectorID ↔ grantsAudited fails db e connectorID := by
  have hdesired : desiredGrants db' e.grants = desiredGrants db e.grants := by
    unfold desiredGrants
    rw [h.users]
  have hsame : ∀ desired,
      sameGrants db' connectorID desired = sameGrants db connectorID desired := by
    intro desired
    unfold sameGrants removedGrants addedGrants
    rw [h.grants]
  rw [grantsAudited, grantsAudited, hdesired, hsame]

theorem failedLookup_eq_none {grants : List DeclaredGrant} :
    failedLookup fails grants = none ↔
      ∀ i < grants.length, fails (.getUserByUsername i) = false := by
  simp [failedLookup, List.find?_eq_none]

/-- What the second part has left when it fails. -/
theorem syncGrants_of_not_reached (h : ¬ syncReached fails e) (db : Tables) (res : Result) :
    ∃ err, syncGrants fails db e res = (db, .error err) := by
  rw [syncGrants]
  split
  · exact ⟨_, rfl⟩
  · next hnone =>
      split
      · exact ⟨_, rfl⟩
      · next hsync =>
          exact absurd ⟨failedLookup_eq_none.1 hnone, by simpa using hsync⟩ h

theorem syncGrants_of_not_audited (h : syncReached fails e)
    (ha : ¬ grantsAudited fails db e res.connectorID) :
    ∃ err, syncGrants fails db e res =
      (syncConfigConnectorGrants db res.connectorID (desiredGrants db e.grants).1, .error err) := by
  rw [grantsAudited, not_or, Bool.not_eq_false, Bool.not_eq_true] at ha
  rw [syncGrants, failedLookup_eq_none.2 h.1]
  dsimp only
  rw [if_neg (by rw [h.2]; simp), if_neg (by rw [ha.2]; simp), if_pos ha.1]
  exact ⟨_, rfl⟩

theorem syncGrants_of_audited (h : syncReached fails e)
    (ha : grantsAudited fails db e res.connectorID) :
    ∃ db' res', syncGrants fails db e res = (db', .ok res') := by
  rw [syncGrants, failedLookup_eq_none.2 h.1]
  dsimp only
  rw [if_neg (by rw [h.2]; simp)]
  split
  · exact ⟨_, _, rfl⟩
  · next hsame =>
      rw [if_neg]
      · exact ⟨_, _, rfl⟩
      · rcases ha with ha | ha
        · rw [ha]; simp
        · exact absurd ha hsame

end Apply

/-! ### Entries that are skipped -/

/-- What a probe imports from an entry fails only if the entry is skipped. -/
theorem resolveProbeImport_eq_importFailed {A : Type} {lib : Library A} {fails : Site → Bool}
    {db : Tables} {e : ResolvedConnector} {entries : List (ResolvedConnector × Outcome)}
    {name : Bytes} (h : resolveProbeImport lib fails db e entries = .error (.importFailed name)) :
    ∃ target err, targetOf entries name = some (target, some (.error err)) := by
  unfold resolveProbeImport at h
  dsimp only at h
  split at h
  · cases h
  · split at h
    · cases h
    · split at h
      · cases h
      · split at h
        · split at h
          · cases h
          · split at h
            · cases h
            · next target err htarget =>
                cases h
                exact ⟨target, err, htarget⟩
            · split at h
              · cases h
              · split at h
                · split at h <;> cases h
                · cases h
        · split at h
          · split at h
            · cases h
            · split at h
              · cases h
              · split at h <;> cases h
          · cases h

/-- The error is not that of a failed import. -/
def NoImport {α : Type} (x : Except ApplyError α) : Prop := ∀ name, x ≠ .error (.importFailed name)

theorem NoImport.bind {α β : Type} {x : Except ApplyError α} {f : α → Except ApplyError β}
    (hx : NoImport x) (hf : ∀ a, NoImport (f a)) : NoImport (x >>= f) := by
  intro name h
  rcases bind_eq_error.1 h with h | ⟨a, -, h⟩
  · exact hx name h
  · exact hf a name h

theorem noImport_ok {α : Type} (a : α) : NoImport (.ok a : Except ApplyError α) := by
  intro name h
  cases h

theorem noImport_check {α : Type} (x : Except Bytes α) : NoImport (check x) := by
  intro name h
  cases x <;> cases h

section NoImport

variable {A : Type} {lib : Library A} {fails : Site → Bool} {db : Tables} {e : ResolvedConnector}
  {category hash name : Bytes}

theorem noImport_call (site : Site) : NoImport (call fails site) := by
  intro name h
  rw [call] at h
  split at h <;> cases h

theorem noImport_grantAdmins (connectorID : Bytes) :
    NoImport (grantAdmins fails db connectorID) := by
  unfold grantAdmins
  refine (noImport_call _).bind fun _ => ?_
  generalize (db.users.take 10000).filter _ = users
  induction users generalizing db with
  | nil => exact noImport_ok _
  | cons u users ih =>
      rw [List.foldlM_cons]
      exact ((noImport_call _).bind fun _ => noImport_ok _).bind fun _ => ih

theorem noImport_auditRecipeActionDiff {connectorID : Bytes}
    {diff : List Bytes × List Bytes × List Bytes} :
    NoImport (auditRecipeActionDiff fails db connectorID name diff) := by
  unfold auditRecipeActionDiff
  split
  · exact noImport_ok _
  · exact (noImport_call _).bind fun _ => noImport_ok _

theorem noImport_create : NoImport (create lib fails db e category hash) :=
  (noImport_check _).bind fun _ => (noImport_check _).bind fun _ => (noImport_call _).bind fun _ =>
    (noImport_grantAdmins _).bind fun _ => (noImport_call _).bind fun _ =>
      noImport_auditRecipeActionDiff.bind fun _ => noImport_ok _

theorem noImport_mergedConfig (r : ConnectorRecord) : NoImport (mergedConfig lib e r) := by
  unfold mergedConfig
  split
  · exact noImport_ok _
  · refine NoImport.bind ?_ fun _ => (noImport_check _).bind fun _ => noImport_ok _
    unfold keptConfig
    split
    · intro name h
      cases hparse : lib.parseConnectorConfig r.type r.configData with
      | error msg => rw [hparse] at h; cases h
      | ok c => rw [hparse] at h; cases h
    · exact noImport_ok _

theorem noImport_adminGrants (r : ConnectorRecord) : NoImport (adminGrants fails db r) := by
  unfold adminGrants
  split
  · exact noImport_grantAdmins _
  · exact noImport_ok _

theorem noImport_update (r : ConnectorRecord) : NoImport (update lib fails db e r category hash) :=
  (noImport_check _).bind fun _ => (noImport_check _).bind fun _ =>
    (noImport_mergedConfig r).bind fun _ => (noImport_check _).bind fun _ =>
      (noImport_call _).bind fun _ => (noImport_adminGrants r).bind fun _ =>
        (noImport_call _).bind fun _ => noImport_auditRecipeActionDiff.bind fun _ => noImport_ok _

theorem noImport_firstTransaction : NoImport (firstTransaction lib fails db e category hash) := by
  refine (noImport_call _).bind fun _ => (noImport_call _).bind fun _ =>
    NoImport.bind ?_ fun r => NoImport.bind ?_ fun _ => (noImport_call _).bind fun _ =>
      noImport_ok _
  · intro name h
    rw [matchConnector] at h
    split at h <;> cases h
  · unfold createOrUpdate
    split
    · exact noImport_create
    · split
      · exact noImport_ok _
      · exact noImport_update _

/-- **A probe reports a failed import** only of an entry that is skipped. -/
theorem apply_eq_importFailed {entries : List (ResolvedConnector × Outcome)}
    (h : (apply lib fails db e entries).2 = .error (.importFailed name)) :
    ∃ target err, targetOf entries name = some (target, some (.error err)) := by
  rw [apply] at h
  split at h
  · next err hprepare =>
      obtain rfl := Except.error.inj h
      rw [prepare] at hprepare
      split at hprepare
      · cases hprepare
      · rcases bind_eq_error.1 hprepare with hp | ⟨-, -, hp⟩
        · exact absurd hp (noImport_check _ name)
        · rcases bind_eq_error.1 hp with hp | ⟨config, -, hp⟩
          · rw [resolvedConfig] at hp
            split at hp
            · exact resolveProbeImport_eq_importFailed hp
            · cases hp
          · exact absurd hp (((noImport_check _).bind fun _ => (noImport_check _).bind fun _ =>
              noImport_ok _) name)
  · next e' category hash hprepare =>
      split at h
      · next err hfirst =>
          obtain rfl := Except.error.inj h
          exact absurd hfirst (noImport_firstTransaction name)
      · next db₁ res hfirst =>
          rw [syncGrants] at h
          split at h
          · cases h
          · split at h
            · cases h
            · dsimp only at h
              split at h
              · cases h
              · split at h <;> cases h

/-- **When an entry that is skipped has written nothing**: its first transaction fails, or the calls
after it go through and a change of its grants is audited, or these fail and the entry was applied
before. -/
def Unwritten (lib : Library A) (fails : Site → Bool) (db : Tables) (e : ResolvedConnector)
    (entries : List (ResolvedConnector × Outcome)) : Prop :=
  ∀ e' category hash, prepare lib fails db e entries = .ok (e', category, hash) →
    (∃ err, firstTransaction lib fails db e' category hash = .error err) ∨
      (syncReached fails e' ∧ grantsAudited fails db e' (connectorOf lib db e'.name)) ∨
      (¬ syncReached fails e' ∧ AppliedBefore db e'.name hash)

/-- **An entry that is skipped** leaves the tables in exactly these cases, and a probe that imports
from an entry fails for it only if that entry is skipped. -/
theorem skipped_unwritten_iff (lib : Library A) (fails : Site → Bool) (db : Tables)
    (e : ResolvedConnector) (entries : List (ResolvedConnector × Outcome)) :
    ((∀ err, (apply lib fails db e entries).2 = .error err →
        (apply lib fails db e entries).1 = db) ↔ Unwritten lib fails db e entries) ∧
      ∀ name, (apply lib fails db e entries).2 = .error (.importFailed name) →
        ∃ target err, targetOf entries name = some (target, some (.error err)) := by
  refine ⟨⟨fun h e' category hash hprepare => ?_, fun h err herr => ?_⟩,
    fun name => apply_eq_importFailed⟩
  · cases hfirst : firstTransaction lib fails db e' category hash with
    | error err => exact .inl ⟨err, rfl⟩
    | ok first =>
        obtain ⟨db', res⟩ := first
        right
        have happly : apply lib fails db e entries = syncGrants fails db' e' res := by
          rw [apply, hprepare]
          dsimp only
          rw [hfirst]
        obtain ⟨hid, hsame, hcases⟩ := firstTransaction_eq_ok hfirst
        rw [happly] at h
        rw [← hid, ← hsame.grantsAudited_iff]
        by_cases hreached : syncReached fails e'
        · left
          refine ⟨hreached, ?_⟩
          by_contra haudited
          obtain ⟨err, hsync⟩ := syncGrants_of_not_audited hreached haudited
          rw [hsync] at h
          have hdb := h err rfl
          have hchange :
              sameGrants db' res.connectorID (desiredGrants db' e'.grants).1 = false := by
            rw [grantsAudited, not_or, Bool.not_eq_true] at haudited
            exact haudited.2
          rcases hcases with ⟨-, rfl⟩ | ⟨-, hlt⟩
          · exact syncConfigConnectorGrants_ne hchange (congrArg Tables.grants hdb)
          · rw [← hdb] at hlt
            exact lt_irrefl _ hlt
        · right
          obtain ⟨err, hsync⟩ := syncGrants_of_not_reached hreached db' res
          rw [hsync] at h
          have hdb : db' = db := h err rfl
          rcases hcases with ⟨hbefore, -⟩ | ⟨-, hlt⟩
          · exact ⟨hreached, hbefore⟩
          · rw [hdb] at hlt
            exact absurd hlt (lt_irrefl _)
  · unfold apply at herr ⊢
    cases hprepare : prepare lib fails db e entries with
    | error err' => rfl
    | ok prepared =>
        obtain ⟨e', category, hash⟩ := prepared
        rw [hprepare] at herr
        dsimp only at herr ⊢
        cases hfirst : firstTransaction lib fails db e' category hash with
        | error err' => rfl
        | ok first =>
            obtain ⟨db', res⟩ := first
            rw [hfirst] at herr
            dsimp only at herr ⊢
            obtain ⟨hid, hsame, hcases⟩ := firstTransaction_eq_ok hfirst
            rcases h e' category hash hprepare with
              ⟨err', hfails⟩ | ⟨hreached, haudited⟩ | ⟨hreached, hbefore⟩
            · rw [hfirst] at hfails
              cases hfails
            · rw [← hid, ← hsame.grantsAudited_iff] at haudited
              obtain ⟨db₂, res', hsync⟩ := syncGrants_of_audited hreached haudited
              rw [hsync] at herr
              cases herr
            · obtain ⟨err', hsync⟩ := syncGrants_of_not_reached hreached db' res
              rw [hsync]
              rcases hcases with ⟨-, hdb⟩ | ⟨hne, -⟩
              · exact hdb
              · exact absurd hbefore hne

end NoImport

/-- A library without checks and secrets. -/
def bareLibrary : Library Unit where
  trimSpace := id
  validateDeclared _ _ := .ok ()
  configCategory _ _ := .ok (bytes "networking")
  fingerprint _ := .ok []
  recipeActions _ _ := .ok ()
  storedRecipeActions _ := .ok ()
  noActions := ()
  diffActions _ _ := ([], [], [])
  isCredentialRefresherType _ := false
  parseConnectorConfig _ _ := .ok .empty
  secretFieldsChanged _ _ _ := .ok false
  marshalConnectorConfig _ _ := .ok (bytes "{}")
  newID := bytes "c1"
  now := []

/-- A new connector which a user may see. -/
def grantedEntry : ResolvedConnector :=
  { name := bytes "web", type := bytes "traefik", url := [], verifyTLS := true, enabled := true
    scheduleSeconds := 0, config := .empty, grants := [⟨bytes "alice", bytes "viewer"⟩]
    owner := [], userExpiresAt := [], rotationMaxAgeDays := 0, err := none }

/-- **A skipped entry may have been written**: the connector is created, and then the user of its
grant cannot be looked up. -/
theorem skipped_written :
    ¬ ∀ (lib : Library Unit) (fails : Site → Bool) (db : Tables) (e : ResolvedConnector)
        (entries : List (ResolvedConnector × Outcome)) (err : ApplyError),
        (apply lib fails db e entries).2 = .error err →
          (apply lib fails db e entries).1.connectors = db.connectors ∧
            (apply lib fails db e entries).1.grants = db.grants ∧
            (apply lib fails db e entries).1.audits = db.audits := by
  intro h
  have hskipped := h bareLibrary (fun site => site = .getUserByUsername 0) ⟨[], [], [], []⟩
    grantedEntry [] (.store (.getUserByUsername 0)) rfl
  have hone : (apply bareLibrary (fun site => site = .getUserByUsername 0) ⟨[], [], [], []⟩
    grantedEntry []).1.audits.length = 1 := rfl
  rw [hskipped.2.2] at hone
  cases hone

end WiseLabz.Reconcile
