/-
**The paths to a connector.**

A user's role on a connector is the highest of the user's grants on it, one for each source, and an
API key narrows it.  The role of one connector, a filter of ids, a list with pages, a check for any
connector and a list of approvers are computed by queries of their own.  All but the list agree: the
list has a row for each grant, and its pages are read in an order that leaves ties open.

Main definitions:

* `Access.GrantTables` — users, connectors and grants under the constraints of the schema;
* `Access.getUserConnectorRole`, `Access.userHasConnectorRole` — the role of one connector;
* `Access.filterConnectorIDsByGrant`, `Access.listConnectorsForUser`,
  `Access.userHasAnyConnectorRole`, `Access.eligibleRunbookApprovers`, `Access.canApproveRun` —
  **the other paths**;
* `Access.PathsAgree` — all give the same answer;
* `Access.OneRowEach`, `Lib.TiesOnOnePage` — the condition.

Main results:

* `Access.userHasConnectorRole_iff` — a role is held if one grant, narrowed by the key, has it;
* `Access.pathsAgree_iff` — **the paths agree if and only if the list has one row for each
  connector**, with a role that the key leaves, and connectors of one time are on one page;
* `Access.list_repeats_connector` — a connector with grants from two sources is listed twice.
-/

import WiseLabz.Lib.Table
import WiseLabz.Lib.Ties
import WiseLabz.Store.Visibility

set_option relaxedAutoImplicit false
set_option autoImplicit false

namespace WiseLabz.Access

open Lib
open Store (ConnectorGrant)

/-! ### Tables -/

def viewer : Bytes := bytes "viewer"

def operator : Bytes := bytes "operator"

structure UserRow where
  id : Bytes
  /-- `instance_admin_role = 'admin'`. -/
  instanceAdmin : Bool
  disabled : Bool
  deriving DecidableEq, Repr

structure ConnectorRow where
  id : Bytes
  category : Bytes
  createdAt : Bytes
  deriving DecidableEq, Repr

/-- **The tables**, with the keys and checks of their schema.  The id of a user is a UUID, so it is
not empty. -/
structure GrantTables where
  users : List UserRow
  connectors : List ConnectorRow
  grants : List ConnectorGrant
  users_nodup : (users.map UserRow.id).Nodup
  users_ne_nil : ∀ u ∈ users, u.id ≠ []
  connectors_nodup : (connectors.map ConnectorRow.id).Nodup
  grants_nodup : (grants.map fun g => (g.userId, g.connectorId, g.source)).Nodup
  grants_role : ∀ g ∈ grants, g.role = viewer ∨ g.role = operator
  grants_connector : ∀ g ∈ grants, ∃ c ∈ connectors, c.id = g.connectorId

/-- What an API key narrows its owner's access to. -/
structure APIKeyRestriction where
  readOnly : Bool
  connectorIDs : List Bytes
  deriving DecidableEq, Repr

/-- `Restricted`. -/
def APIKeyRestriction.restricted (k : APIKeyRestriction) : Bool := k.readOnly || k.connectorIDs ≠ []

/-- A session, and a key without restrictions. -/
def unrestricted : APIKeyRestriction := ⟨false, []⟩

/-! ### The role on one connector -/

/-- `connectorRoleRank`; a role that is not in the map has the rank zero. -/
def connectorRoleRank (role : Bytes) : ℕ :=
  if role = viewer then 1 else if role = operator then 2 else 0

/-- `highestConnectorRole`. -/
def highestConnectorRole (roles : List Bytes) : Bytes :=
  roles.foldl (fun best role =>
    if best = [] ∨ connectorRoleRank best < connectorRoleRank role then role else best) []

/-- `ClampConnectorRole`. -/
def clampConnectorRole (k : APIKeyRestriction) (connectorID role : Bytes) : Bytes :=
  if role = [] ∨ k.restricted = false then role
  else if k.connectorIDs ≠ [] ∧ connectorID ∉ k.connectorIDs then []
  else if k.readOnly then viewer
  else role

/-- The user's rows on a connector. -/
def grantsOn (t : GrantTables) (userID connectorID : Bytes) : List ConnectorGrant :=
  t.grants.filter fun g => g.userId = userID ∧ g.connectorId = connectorID

/-- **`GetUserConnectorRole`**; an empty text is no role. -/
def getUserConnectorRole (t : GrantTables) (k : APIKeyRestriction) (userID connectorID : Bytes) :
    Bytes :=
  let role := highestConnectorRole ((grantsOn t userID connectorID).map ConnectorGrant.role)
  if role = [] then [] else clampConnectorRole k connectorID role

/-- **`UserHasConnectorRole`.** -/
def userHasConnectorRole (t : GrantTables) (k : APIKeyRestriction)
    (userID connectorID minRole : Bytes) : Bool :=
  let role := getUserConnectorRole t k userID connectorID
  if role = [] then false else connectorRoleRank minRole ≤ connectorRoleRank role

/-! ### Lists of connectors -/

/-- **`FilterConnectorIDsByGrant`.** -/
def filterConnectorIDsByGrant (t : GrantTables) (k : APIKeyRestriction) (userID : Bytes)
    (ids : List Bytes) (minRole : Bytes) : List Bytes :=
  if ids = [] then ids
  else
    let allowed := ((t.grants.filter fun g => g.userId = userID).filter fun g =>
      let role := clampConnectorRole k g.connectorId g.role
      role ≠ [] ∧ connectorRoleRank minRole ≤ connectorRoleRank role).map ConnectorGrant.connectorId
    ids.filter (· ∈ allowed)

/-- `apiKeyConnectorFilter`. -/
def apiKeyConnectorFilter (k : APIKeyRestriction) (connectorID : Bytes) : Bool :=
  k.connectorIDs = [] || connectorID ∈ k.connectorIDs

/-- The joined rows of a connector that the list shows. -/
def roleRows (t : GrantTables) (k : APIKeyRestriction) (userID category : Bytes)
    (c : ConnectorRow) : List (ConnectorRow × Bytes) :=
  (t.grants.filter fun g => g.connectorId = c.id ∧ g.userId = userID ∧
    (category = [] ∨ c.category = category) ∧ apiKeyConnectorFilter k c.id).map fun g => (c, g.role)

/-- `ORDER BY c.created_at DESC`. -/
def NotOlder (createdAt createdAt' : Bytes) : Prop := createdAt' ≤ createdAt

instance : DecidableRel NotOlder := fun createdAt createdAt' =>
  inferInstanceAs (Decidable (createdAt' ≤ createdAt))

instance : Std.Total NotOlder := ⟨fun _ _ => Std.le_total⟩

instance : IsTrans Bytes NotOlder := ⟨fun _ _ _ h h' => Std.le_trans h' h⟩

instance : Std.Antisymm NotOlder := ⟨fun _ _ h h' => Std.le_antisymm h' h⟩

/-- The rows of the list's query. -/
def listRows (t : GrantTables) (k : APIKeyRestriction) (userID category : Bytes) :
    List (ConnectorRow × Bytes) := t.connectors.flatMap (roleRows t k userID category)

/-- The time by which the list is sorted. -/
def rowTime (r : ConnectorRow × Bytes) : Bytes := r.1.createdAt

/-- **`ListConnectorsForUser`**, where the query has its rows in this order: one page, and the
number of all rows. -/
def listConnectorsForUser (t : GrantTables) (k : APIKeyRestriction) (userID category : Bytes)
    (order : List (ConnectorRow × Bytes)) (offset limit : ℕ) : List (ConnectorRow × Bytes) × ℕ :=
  ((order.drop offset).take limit, (listRows t k userID category).length)

/-! ### Any connector -/

/-- **`UserHasAnyConnectorRole`.** -/
def userHasAnyConnectorRole (t : GrantTables) (k : APIKeyRestriction) (userID minRole : Bytes) :
    Bool :=
  let roles := [operator, viewer].filter fun role =>
    connectorRoleRank minRole ≤ connectorRoleRank role
  if roles = [] then false
  else
    t.grants.any fun g => t.connectors.any fun c =>
      c.id = g.connectorId && g.userId = userID && g.role ∈ roles && apiKeyConnectorFilter k c.id

/-! ### Approvers -/

/-- The distinct connectors of a run. -/
def uniqueConnectorIDs (connectorIDs : List Bytes) : List Bytes :=
  distinctOn id (connectorIDs.filter (· ≠ []))

/-- What the query for approvers asks of a user. -/
def operatesAll (t : GrantTables) (unique : List Bytes) (u : UserRow) : Bool :=
  if unique = [] then
    u.instanceAdmin || t.grants.any fun g => t.connectors.any fun c =>
      c.id = g.connectorId && g.userId = u.id && g.role = operator
  else
    (distinctOn id ((t.grants.filter fun g => g.userId = u.id ∧ g.role = operator ∧
      g.connectorId ∈ unique).map ConnectorGrant.connectorId)).length = unique.length

/-- **`EligibleRunbookApprovers`.** -/
def eligibleRunbookApprovers (t : GrantTables) (connectorIDs : List Bytes) (excludeUserID : Bytes) :
    List Bytes :=
  ((t.users.filter fun u => u.disabled = false ∧ u.id ≠ excludeUserID ∧
    operatesAll t (uniqueConnectorIDs connectorIDs) u).map UserRow.id).insertionSort fun a b => ¬ b < a

/-- Who makes a request. -/
structure Session where
  userID : Bytes
  instanceAdmin : Bool
  restriction : APIKeyRestriction

/-- The session of a user, which is only valid with the user's own role. -/
def UserRow.session (u : UserRow) : Session := ⟨u.id, u.instanceAdmin, unrestricted⟩

/-- `connectorlessRunAuthorized`. -/
def connectorlessRunAuthorized (t : GrantTables) (s : Session) : Bool :=
  s.instanceAdmin || userHasAnyConnectorRole t s.restriction s.userID operator

/-- The loop over the steps' connectors: those checked, if the user operates all of them. -/
def checkSteps (t : GrantTables) (s : Session) : List Bytes → List Bytes → Option (List Bytes)
  | checked, [] => some checked
  | checked, connectorID :: steps =>
      if connectorID = [] ∨ connectorID ∈ checked then checkSteps t s checked steps
      else if userHasConnectorRole t s.restriction s.userID connectorID operator then
        checkSteps t s (connectorID :: checked) steps
      else none

/-- **`canApproveRun`**, for a run with steps on these connectors. -/
def canApproveRun (t : GrantTables) (s : Session) (startedBy : Bytes) (steps : List Bytes) : Bool :=
  if s.userID = [] ∨ s.userID = startedBy ∨ s.restriction.readOnly then false
  else
    match t.users.find? fun u => u.id = s.userID with
    | none => false
    | some user =>
        if user.disabled then false
        else
          match checkSteps t s [] steps with
          | none => false
          | some checked => if checked = [] then connectorlessRunAuthorized t s else true

/-! ### The highest role -/

theorem viewer_ne_nil : viewer ≠ [] := by decide

theorem operator_ne_nil : operator ≠ [] := by decide

@[simp] theorem connectorRoleRank_viewer : connectorRoleRank viewer = 1 := by decide

@[simp] theorem connectorRoleRank_operator : connectorRoleRank operator = 2 := by decide

/-- The highest role is one of the roles, and none ranks above it. -/
theorem highestConnectorRole_spec {roles : List Bytes} (hne : roles ≠ [])
    (hroles : ∀ role ∈ roles, role ≠ []) :
    highestConnectorRole roles ∈ roles ∧
      ∀ role ∈ roles, connectorRoleRank role ≤ connectorRoleRank (highestConnectorRole roles) := by
  induction roles using List.reverseRecOn with
  | nil => exact absurd rfl hne
  | append_singleton roles role ih =>
      have hstep : highestConnectorRole (roles ++ [role]) =
          if highestConnectorRole roles = [] ∨
            connectorRoleRank (highestConnectorRole roles) < connectorRoleRank role then role
          else highestConnectorRole roles := by
        rw [highestConnectorRole, List.foldl_append]
        rfl
      by_cases hnil : roles = []
      · subst hnil
        have hbest : highestConnectorRole [] = [] := rfl
        rw [hstep, if_pos (Or.inl hbest)]
        simp
      · obtain ⟨hmem, hmax⟩ := ih hnil fun r hr => hroles r (List.mem_append_left _ hr)
        have hbest : highestConnectorRole roles ≠ [] := hroles _ (List.mem_append_left _ hmem)
        rw [hstep]
        split
        · next h =>
            refine ⟨by simp, fun r hr => ?_⟩
            rcases List.mem_append.1 hr with hr | hr
            · exact (hmax r hr).trans (h.resolve_left hbest).le
            · rw [List.mem_singleton.1 hr]
        · next h =>
            refine ⟨List.mem_append_left _ hmem, fun r hr => ?_⟩
            rcases List.mem_append.1 hr with hr | hr
            · exact hmax r hr
            · rw [List.mem_singleton.1 hr]
              exact Nat.le_of_not_lt fun hlt => h (Or.inr hlt)

/-- What a key leaves of a role. -/
theorem clampConnectorRole_eq {k : APIKeyRestriction} {connectorID role : Bytes} (h : role ≠ []) :
    clampConnectorRole k connectorID role =
      if apiKeyConnectorFilter k connectorID then (if k.readOnly then viewer else role) else [] := by
  obtain ⟨readOnly, connectorIDs⟩ := k
  cases connectorIDs with
  | nil => cases readOnly <;>
      simp [clampConnectorRole, apiKeyConnectorFilter, APIKeyRestriction.restricted, h]
  | cons id ids =>
      by_cases hmem : connectorID ∈ id :: ids
      · simp [clampConnectorRole, apiKeyConnectorFilter, APIKeyRestriction.restricted, h, hmem]
      · simp [clampConnectorRole, apiKeyConnectorFilter, APIKeyRestriction.restricted, h, hmem]

section Tables

variable {t : GrantTables} {k : APIKeyRestriction} {userID connectorID minRole : Bytes}

theorem GrantTables.role_ne_nil (t : GrantTables) {g : ConnectorGrant} (hg : g ∈ t.grants) :
    g.role ≠ [] := by
  rcases t.grants_role g hg with h | h
  · exact h ▸ viewer_ne_nil
  · exact h ▸ operator_ne_nil

theorem mem_grantsOn {g : ConnectorGrant} :
    g ∈ grantsOn t userID connectorID ↔
      g ∈ t.grants ∧ g.userId = userID ∧ g.connectorId = connectorID := by
  rw [grantsOn, List.mem_filter, decide_eq_true_iff]

/-- A user without rows on a connector has no role; else the role is the highest of the rows', as
far as the key leaves it. -/
theorem getUserConnectorRole_spec (t : GrantTables) (k : APIKeyRestriction)
    (userID connectorID : Bytes) :
    (grantsOn t userID connectorID = [] ∧ getUserConnectorRole t k userID connectorID = []) ∨
      ∃ g ∈ grantsOn t userID connectorID,
        (∀ g' ∈ grantsOn t userID connectorID, connectorRoleRank g'.role ≤ connectorRoleRank g.role) ∧
        getUserConnectorRole t k userID connectorID =
          clampConnectorRole k connectorID g.role := by
  by_cases hnil : grantsOn t userID connectorID = []
  · left
    refine ⟨hnil, ?_⟩
    rw [getUserConnectorRole, hnil]
    rfl
  · right
    have hroles : ∀ role ∈ (grantsOn t userID connectorID).map ConnectorGrant.role, role ≠ [] := by
      intro role hrole
      obtain ⟨g, hg, rfl⟩ := List.mem_map.1 hrole
      exact t.role_ne_nil (mem_grantsOn.1 hg).1
    obtain ⟨hmem, hmax⟩ := highestConnectorRole_spec (by simpa using hnil) hroles
    obtain ⟨g, hg, hrole⟩ := List.mem_map.1 hmem
    refine ⟨g, hg, fun g' hg' => ?_, ?_⟩
    · rw [hrole]
      exact hmax _ (List.mem_map_of_mem hg')
    · rw [getUserConnectorRole, ← hrole, if_neg (t.role_ne_nil (mem_grantsOn.1 hg).1)]

/-- **A role is held if one grant, narrowed by the key, has it.** -/
theorem userHasConnectorRole_iff :
    userHasConnectorRole t k userID connectorID minRole = true ↔
      apiKeyConnectorFilter k connectorID = true ∧
        ∃ g ∈ t.grants, g.userId = userID ∧ g.connectorId = connectorID ∧
          connectorRoleRank minRole ≤ connectorRoleRank (if k.readOnly then viewer else g.role) := by
  rcases getUserConnectorRole_spec t k userID connectorID with ⟨hnil, hrole⟩ | ⟨g, hg, hmax, hrole⟩
  · rw [userHasConnectorRole, hrole]
    constructor
    · intro h
      cases h
    · rintro ⟨-, g, hg, hu, hc, -⟩
      have hmem : g ∈ grantsOn t userID connectorID := mem_grantsOn.2 ⟨hg, hu, hc⟩
      simp [hnil] at hmem
  · obtain ⟨hgrants, hu, hc⟩ := mem_grantsOn.1 hg
    rw [userHasConnectorRole, hrole, clampConnectorRole_eq (t.role_ne_nil hgrants)]
    by_cases hfilter : apiKeyConnectorFilter k connectorID = true
    · have hne : (if k.readOnly then viewer else g.role) ≠ [] := by
        split
        · exact viewer_ne_nil
        · exact t.role_ne_nil hgrants
      rw [if_pos hfilter]
      show (if (if k.readOnly then viewer else g.role) = [] then false else decide
        (connectorRoleRank minRole ≤ connectorRoleRank (if k.readOnly then viewer else g.role))) =
          true ↔ _
      rw [if_neg hne, decide_eq_true_iff]
      constructor
      · intro h
        exact ⟨hfilter, g, hgrants, hu, hc, h⟩
      · rintro ⟨-, g', hg', hu', hc', h⟩
        refine h.trans ?_
        split
        · exact le_rfl
        · exact hmax g' (mem_grantsOn.2 ⟨hg', hu', hc'⟩)
    · simp [hfilter]

/-! ### The filter, any connector and the approvers -/

theorem filterConnectorIDsByGrant_eq {ids : List Bytes} :
    filterConnectorIDsByGrant t k userID ids minRole =
      ids.filter fun id => userHasConnectorRole t k userID id minRole := by
  by_cases hnil : ids = []
  · rw [filterConnectorIDsByGrant, if_pos hnil, hnil, List.filter_nil]
  · rw [filterConnectorIDsByGrant, if_neg hnil]
    refine List.filter_congr fun id _ => ?_
    rw [Bool.eq_iff_iff, decide_eq_true_iff, userHasConnectorRole_iff]
    simp only [List.mem_map, List.mem_filter, decide_eq_true_iff]
    constructor
    · rintro ⟨g, ⟨⟨hg, hu⟩, hne, hrank⟩, rfl⟩
      rw [clampConnectorRole_eq (t.role_ne_nil hg)] at hne hrank
      split at hne
      · next hfilter =>
          rw [if_pos hfilter] at hrank
          exact ⟨hfilter, g, hg, hu, rfl, hrank⟩
      · exact absurd rfl hne
    · rintro ⟨hfilter, g, hg, hu, rfl, hrank⟩
      refine ⟨g, ⟨⟨hg, hu⟩, ?_⟩, rfl⟩
      rw [clampConnectorRole_eq (t.role_ne_nil hg), if_pos hfilter]
      refine ⟨?_, hrank⟩
      split
      · exact viewer_ne_nil
      · exact t.role_ne_nil hg

theorem userHasAnyConnectorRole_iff (hreadOnly : k.readOnly = false) :
    userHasAnyConnectorRole t k userID minRole = true ↔
      ∃ c ∈ t.connectors, userHasConnectorRole t k userID c.id minRole = true := by
  have hroles : ∀ g ∈ t.grants, (g.role ∈ [operator, viewer].filter fun role =>
      decide (connectorRoleRank minRole ≤ connectorRoleRank role)) ↔
      connectorRoleRank minRole ≤ connectorRoleRank g.role := by
    intro g hg
    rcases t.grants_role g hg with h | h <;> simp [h]
  simp only [userHasConnectorRole_iff, hreadOnly, Bool.false_eq_true, if_false]
  constructor
  · intro h
    rw [userHasAnyConnectorRole] at h
    split at h
    · cases h
    · obtain ⟨g, hg, h⟩ := List.any_eq_true.1 h
      obtain ⟨c, hc, h⟩ := List.any_eq_true.1 h
      simp only [Bool.and_eq_true, decide_eq_true_iff] at h
      obtain ⟨⟨⟨hid, hu⟩, hrole⟩, hfilter⟩ := h
      exact ⟨c, hc, hfilter, g, hg, hu, hid.symm, (hroles g hg).1 hrole⟩
  · rintro ⟨c, hc, hfilter, g, hg, hu, hid, hrank⟩
    have hrole := (hroles g hg).2 hrank
    rw [userHasAnyConnectorRole, if_neg (List.ne_nil_of_mem hrole)]
    refine List.any_eq_true.2 ⟨g, hg, List.any_eq_true.2 ⟨c, hc, ?_⟩⟩
    simp only [Bool.and_eq_true, decide_eq_true_iff]
    exact ⟨⟨⟨hid.symm, hu⟩, hrole⟩, hfilter⟩

/-- A user operates a connector, with an unrestricted session, if a row says so. -/
theorem userHasConnectorRole_operator :
    userHasConnectorRole t unrestricted userID connectorID operator = true ↔
      ∃ g ∈ t.grants, g.userId = userID ∧ g.connectorId = connectorID ∧ g.role = operator := by
  rw [userHasConnectorRole_iff]
  constructor
  · rintro ⟨-, g, hg, hu, hc, hrank⟩
    rcases t.grants_role g hg with hrole | hrole
    · simp [unrestricted, hrole] at hrank
    · exact ⟨g, hg, hu, hc, hrole⟩
  · rintro ⟨g, hg, hu, hc, hrole⟩
    exact ⟨rfl, g, hg, hu, hc, by simp [unrestricted, hrole]⟩

theorem distinctIDs_nodup (ids : List Bytes) : (distinctOn id ids).Nodup := by
  have h : KeyNodup id (distinctOn id ids) := distinctOn_nodup ids
  rwa [KeyNodup, List.map_id] at h

theorem mem_uniqueConnectorIDs {ids : List Bytes} {c : Bytes} :
    c ∈ uniqueConnectorIDs ids ↔ c ∈ ids ∧ c ≠ [] := by
  rw [uniqueConnectorIDs]
  constructor
  · intro h
    simpa using mem_of_mem_distinctOn h
  · intro h
    exact mem_distinctOn (by simpa using h) fun r' _ heq => heq

/-- The loop finds the distinct connectors, if the user operates all of them. -/
theorem checkSteps_spec (s : Session) (checked steps : List Bytes) :
    (∀ r, checkSteps t s checked steps = some r → (∀ c ∈ steps, c ≠ [] → c ∉ checked →
        userHasConnectorRole t s.restriction s.userID c operator = true) ∧
        ∀ c, c ∈ r ↔ c ∈ checked ∨ (c ∈ steps ∧ c ≠ [])) ∧
      (checkSteps t s checked steps = none → ∃ c ∈ steps, c ≠ [] ∧ c ∉ checked ∧
        userHasConnectorRole t s.restriction s.userID c operator = false) := by
  induction steps generalizing checked with
  | nil => simp [checkSteps]
  | cons c steps ih =>
      rw [checkSteps]
      split
      · next hskip =>
          obtain ⟨hsome, hnone⟩ := ih checked
          refine ⟨fun r hr => ?_, fun h => ?_⟩
          · obtain ⟨hall, hmem⟩ := hsome r hr
            refine ⟨fun c' hc' hne hnew => ?_, fun c' => ?_⟩
            · rcases List.mem_cons.1 hc' with rfl | hc'
              · exact absurd hskip (by simp [hne, hnew])
              · exact hall c' hc' hne hnew
            · rw [hmem, List.mem_cons]
              constructor
              · tauto
              · rintro (h | ⟨rfl | h, hne⟩)
                · exact Or.inl h
                · exact Or.inl (hskip.resolve_left hne)
                · exact Or.inr ⟨h, hne⟩
          · obtain ⟨c', hc', h⟩ := hnone h
            exact ⟨c', List.mem_cons_of_mem _ hc', h⟩
      · next hskip =>
          rw [not_or] at hskip
          split
          · next hrole =>
              obtain ⟨hsome, hnone⟩ := ih (c :: checked)
              refine ⟨fun r hr => ?_, fun h => ?_⟩
              · obtain ⟨hall, hmem⟩ := hsome r hr
                refine ⟨fun c' hc' hne hnew => ?_, fun c' => ?_⟩
                · by_cases heq : c' = c
                  · exact heq ▸ hrole
                  · exact hall c' ((List.mem_cons.1 hc').resolve_left heq) hne
                      (by simp [heq, hnew])
                · rw [hmem, List.mem_cons, List.mem_cons]
                  constructor
                  · rintro ((rfl | h) | ⟨h, hne⟩)
                    · exact Or.inr ⟨Or.inl rfl, hskip.1⟩
                    · exact Or.inl h
                    · exact Or.inr ⟨Or.inr h, hne⟩
                  · tauto
              · obtain ⟨c', hc', hne, hnew, h⟩ := hnone h
                exact ⟨c', List.mem_cons_of_mem _ hc', hne,
                  fun hmem => hnew (List.mem_cons_of_mem _ hmem), h⟩
          · next hrole =>
              refine ⟨fun r hr => ?_, fun _ => ?_⟩
              · cases hr
              · exact ⟨c, by simp, hskip.1, hskip.2, by simpa using hrole⟩

/-- As many distinct connectors of a user's operator rows as distinct ids: each id has a row. -/
theorem operatesAll_iff {unique : List Bytes} {u : UserRow} (hunique : unique.Nodup)
    (hne : unique ≠ []) :
    operatesAll t unique u = true ↔ ∀ c ∈ unique,
      userHasConnectorRole t unrestricted u.id c operator = true := by
  rw [operatesAll, if_neg hne, decide_eq_true_iff]
  generalize hrows : (t.grants.filter fun g => g.userId = u.id ∧ g.role = operator ∧
    g.connectorId ∈ unique).map ConnectorGrant.connectorId = rows
  have hmem : ∀ c, c ∈ distinctOn id rows ↔
      c ∈ unique ∧ userHasConnectorRole t unrestricted u.id c operator = true := by
    intro c
    rw [userHasConnectorRole_operator]
    have hdistinct : c ∈ distinctOn id rows ↔ c ∈ rows :=
      ⟨mem_of_mem_distinctOn, fun h => mem_distinctOn h fun r' _ heq => heq⟩
    rw [hdistinct, ← hrows]
    simp only [List.mem_map, List.mem_filter, decide_eq_true_iff]
    constructor
    · rintro ⟨g, ⟨hg, hu, hrole, hc⟩, rfl⟩
      exact ⟨hc, g, hg, hu, rfl, hrole⟩
    · rintro ⟨hc, g, hg, hu, rfl, hrole⟩
      exact ⟨g, ⟨hg, hu, hrole, hc⟩, rfl⟩
  have hnodup : (distinctOn id rows).Nodup := distinctIDs_nodup rows
  have hsub : (distinctOn id rows).Subperm unique :=
    List.subperm_of_subset hnodup fun c hc => ((hmem c).1 hc).1
  constructor
  · intro hlength c hc
    have hperm := hsub.perm_of_length_le hlength.ge
    exact ((hmem c).1 (hperm.mem_iff.2 hc)).2
  · intro hall
    have hsup : unique.Subperm (distinctOn id rows) :=
      List.subperm_of_subset hunique fun c hc => (hmem c).2 ⟨hc, hall c hc⟩
    exact le_antisymm hsub.length_le hsup.length_le

/-- Without connectors, both ask for an instance admin or for an operator of any connector. -/
theorem connectorlessRunAuthorized_session (u : UserRow) :
    connectorlessRunAuthorized t u.session = operatesAll t [] u := by
  have hroles : ([operator, viewer].filter fun role =>
      decide (connectorRoleRank operator ≤ connectorRoleRank role)) = [operator] := by decide
  show (u.instanceAdmin || userHasAnyConnectorRole t unrestricted u.id operator) = _
  rw [Bool.eq_iff_iff]
  simp only [userHasAnyConnectorRole, hroles, operatesAll, if_true, unrestricted,
    apiKeyConnectorFilter, List.mem_singleton, List.cons_ne_nil,
    if_false, decide_true, Bool.true_or, Bool.and_true, Bool.or_eq_true, List.any_eq_true,
    Bool.and_eq_true, decide_eq_true_iff]

/-- What the loop finds is what the query asks for, when the distinct connectors are the same. -/
theorem checkSteps_session {u : UserRow} {unique steps : List Bytes} (hunique : unique.Nodup)
    (hmem : ∀ c, c ∈ unique ↔ c ∈ steps ∧ c ≠ []) :
    (match checkSteps t u.session [] steps with
      | none => false
      | some checked => if checked = [] then connectorlessRunAuthorized t u.session else true) =
      operatesAll t unique u := by
  obtain ⟨hsome, hnone⟩ := checkSteps_spec (t := t) u.session [] steps
  cases hloop : checkSteps t u.session [] steps with
  | none =>
      obtain ⟨c, hc, hne, -, hrole⟩ := hnone hloop
      have hc' : c ∈ unique := (hmem c).2 ⟨hc, hne⟩
      symm
      rw [← Bool.not_eq_true, operatesAll_iff hunique (List.ne_nil_of_mem hc')]
      intro hall
      exact absurd (hall c hc') (by simpa [UserRow.session] using hrole)
  | some checked =>
      obtain ⟨hall, hchecked⟩ := hsome checked hloop
      have hsame : ∀ c, c ∈ checked ↔ c ∈ unique := by
        intro c
        rw [hchecked, hmem]
        simp
      by_cases hempty : checked = []
      · have hnil : unique = [] := by
          refine List.eq_nil_iff_forall_not_mem.2 fun c hc => ?_
          have hc' := (hsame c).2 hc
          simp [hempty] at hc'
        simp only [if_pos hempty]
        rw [hnil, connectorlessRunAuthorized_session]
      · have hne : unique ≠ [] := by
          obtain ⟨c, hc⟩ := List.exists_mem_of_ne_nil _ hempty
          exact List.ne_nil_of_mem ((hsame c).1 hc)
        simp only [if_neg hempty]
        symm
        rw [operatesAll_iff hunique hne]
        intro c hc
        obtain ⟨hsteps, hcne⟩ := (hmem c).1 hc
        exact hall c hsteps hcne (by simp)

/-- A user's row is the one under its id. -/
theorem GrantTables.user_unique (t : GrantTables) {u u' : UserRow} (hu : u ∈ t.users)
    (hu' : u' ∈ t.users) (h : u'.id = u.id) : u' = u :=
  List.inj_on_of_nodup_map t.users_nodup hu' hu h

theorem canApproveRun_session {u : UserRow} (hu : u ∈ t.users) {unique steps : List Bytes}
    {startedBy : Bytes} (hunique : unique.Nodup) (hmem : ∀ c, c ∈ unique ↔ c ∈ steps ∧ c ≠ []) :
    canApproveRun t u.session startedBy steps = true ↔
      u.disabled = false ∧ u.id ≠ startedBy ∧ operatesAll t unique u = true := by
  have hfind : t.users.find? (fun u' => u'.id = u.session.userID) = some u := by
    cases h : t.users.find? (fun u' => u'.id = u.session.userID) with
    | none =>
        have hnone := List.find?_eq_none.1 h u hu
        simp [UserRow.session] at hnone
    | some u' =>
        have hid : u'.id = u.session.userID := by simpa using List.find?_some h
        rw [t.user_unique hu (List.mem_of_find?_eq_some h) hid]
  rw [canApproveRun, hfind, ← checkSteps_session hunique hmem]
  by_cases hrun : u.id = startedBy
  · rw [if_pos (show u.session.userID = [] ∨ u.session.userID = startedBy ∨ _ from
      Or.inr (Or.inl hrun))]
    simp [hrun]
  · rw [if_neg (show ¬ (u.session.userID = [] ∨ u.session.userID = startedBy ∨
      u.session.restriction.readOnly = true) by
        simpa [UserRow.session, unrestricted, hrun] using t.users_ne_nil u hu)]
    cases hdisabled : u.disabled with
    | true => simp [hdisabled]
    | false => simp [hdisabled, hrun]

/-- **The approvers are the users whose session may approve.** -/
theorem mem_eligibleRunbookApprovers {u : UserRow} (hu : u ∈ t.users) {ids steps : List Bytes}
    {startedBy : Bytes} (hids : ∀ c, c ≠ [] → (c ∈ ids ↔ c ∈ steps)) :
    u.id ∈ eligibleRunbookApprovers t ids startedBy ↔
      canApproveRun t u.session startedBy steps = true := by
  have hunique : ∀ c, c ∈ uniqueConnectorIDs ids ↔ c ∈ steps ∧ c ≠ [] := by
    intro c
    rw [mem_uniqueConnectorIDs]
    constructor
    · rintro ⟨hc, hne⟩
      exact ⟨(hids c hne).1 hc, hne⟩
    · rintro ⟨hc, hne⟩
      exact ⟨(hids c hne).2 hc, hne⟩
  have hnodup : (uniqueConnectorIDs ids).Nodup := distinctIDs_nodup _
  rw [canApproveRun_session hu hnodup hunique, eligibleRunbookApprovers, List.mem_insertionSort,
    List.mem_map]
  constructor
  · rintro ⟨u', hu', heq⟩
    obtain ⟨hu', h⟩ := List.mem_filter.1 hu'
    rw [t.user_unique hu hu' heq] at h
    exact of_decide_eq_true h
  · intro h
    exact ⟨u, List.mem_filter.2 ⟨hu, decide_eq_true h⟩, rfl⟩

/-! ### The list -/

/-- The pages of the list, up to its total, each in the order of its own query. -/
def listPages (t : GrantTables) (k : APIKeyRestriction) (userID category : Bytes)
    (orders : ℕ → List (ConnectorRow × Bytes)) (limit : ℕ) : List (ConnectorRow × Bytes) :=
  (List.range (listRows t k userID category).length).flatMap fun i =>
    (listConnectorsForUser t k userID category (orders i) (i * limit) limit).1

/-- Orders in which the page queries may return their rows. -/
def ListOrders (t : GrantTables) (k : APIKeyRestriction) (userID category : Bytes)
    (orders : ℕ → List (ConnectorRow × Bytes)) : Prop :=
  ∀ i, Returned NotOlder rowTime (listRows t k userID category) (orders i)

/-- The rows in one of these orders. -/
def sortedRows (t : GrantTables) (k : APIKeyRestriction) (userID category : Bytes) :
    List (ConnectorRow × Bytes) :=
  (listRows t k userID category).insertionSort fun r r' => NotOlder (rowTime r) (rowTime r')

/-- **Connectors that were created at one time are on one page.** -/
def ListTiesOnOnePage (t : GrantTables) (k : APIKeyRestriction) (userID : Bytes) (limit : ℕ) : Prop :=
  ∀ category, TiesOnOnePage rowTime limit (sortedRows t k userID category)

/-- The rows of the list, each once, where ties are on one page. -/
theorem listPages_perm {category : Bytes} {orders : ℕ → List (ConnectorRow × Bytes)} {limit : ℕ}
    (h : 0 < limit) (hties : ListTiesOnOnePage t k userID limit)
    (horders : ListOrders t k userID category orders) :
    (listPages t k userID category orders limit).Perm (listRows t k userID category) :=
  pages_perm (returned_insertionSort _) (hties category) horders (Nat.le_mul_of_pos_right _ h)

/-- A connector has a row for each grant of the user, if it is asked for and the key reaches it. -/
theorem roleRows_eq {category : Bytes} {c : ConnectorRow} :
    roleRows t k userID category c =
      if (category = [] ∨ c.category = category) ∧ apiKeyConnectorFilter k c.id = true then
        (grantsOn t userID c.id).map fun g => (c, g.role)
      else [] := by
  rw [roleRows, grantsOn]
  split
  · next h =>
      congr 1
      refine List.filter_congr fun g _ => ?_
      simp only [h, and_true]
      exact decide_eq_decide.2 and_comm
  · next h =>
      rw [List.map_eq_nil_iff, List.filter_eq_nil_iff]
      intro g _ hg
      exact h (of_decide_eq_true hg).2.2

theorem mem_listRows {category : Bytes} {r : ConnectorRow × Bytes} :
    r ∈ listRows t k userID category ↔ r.1 ∈ t.connectors ∧
      (category = [] ∨ r.1.category = category) ∧ apiKeyConnectorFilter k r.1.id = true ∧
        ∃ g ∈ grantsOn t userID r.1.id, g.role = r.2 := by
  rw [listRows, List.mem_flatMap]
  constructor
  · rintro ⟨c, hc, hr⟩
    rw [roleRows_eq] at hr
    split at hr
    · next hcond =>
        obtain ⟨g, hg, rfl⟩ := List.mem_map.1 hr
        exact ⟨hc, hcond.1, hcond.2, g, hg, rfl⟩
    · simp at hr
  · rintro ⟨hc, hcategory, hfilter, g, hg, hrole⟩
    refine ⟨r.1, hc, ?_⟩
    rw [roleRows_eq, if_pos ⟨hcategory, hfilter⟩]
    exact List.mem_map.2 ⟨g, hg, Prod.ext rfl hrole⟩

theorem userHasConnectorRole_viewer :
    userHasConnectorRole t k userID connectorID viewer = true ↔
      apiKeyConnectorFilter k connectorID = true ∧ ∃ g, g ∈ grantsOn t userID connectorID := by
  rw [userHasConnectorRole_iff]
  constructor
  · rintro ⟨hfilter, g, hg, hu, hc, -⟩
    exact ⟨hfilter, g, mem_grantsOn.2 ⟨hg, hu, hc⟩⟩
  · rintro ⟨hfilter, g, hg⟩
    obtain ⟨hgrants, hu, hc⟩ := mem_grantsOn.1 hg
    refine ⟨hfilter, g, hgrants, hu, hc, ?_⟩
    split
    · exact le_rfl
    · rcases t.grants_role g hgrants with h | h <;> simp [h]

/-- **The list agrees with the role of each connector**: whatever the orders of its pages, they list
the connectors on which the user has a role, each once and with that role, and the total is their
number. -/
structure ListAgrees (t : GrantTables) (k : APIKeyRestriction) (userID : Bytes) (limit : ℕ) : Prop where
  once : ∀ category orders, ListOrders t k userID category orders →
    ((listPages t k userID category orders limit).map fun r => r.1.id).Nodup
  listed : ∀ category orders, ListOrders t k userID category orders → ∀ c ∈ t.connectors,
    (category = [] ∨ c.category = category) →
      (c.id ∈ (listPages t k userID category orders limit).map (fun r => r.1.id) ↔
        userHasConnectorRole t k userID c.id viewer = true)
  row : ∀ category orders, ListOrders t k userID category orders →
    ∀ r ∈ listPages t k userID category orders limit,
      r.1 ∈ t.connectors ∧ (category = [] ∨ r.1.category = category) ∧
        r.2 = getUserConnectorRole t k userID r.1.id
  total : ∀ category orders, ListOrders t k userID category orders → ∀ order offset,
    (listConnectorsForUser t k userID category order offset limit).2 =
      (listPages t k userID category orders limit).length

/-- Each connector that the key reaches has one row at most, and a read-only key leaves its role as
it is. -/
def OneRowEach (t : GrantTables) (k : APIKeyRestriction) (userID : Bytes) : Prop :=
  ∀ c ∈ t.connectors, apiKeyConnectorFilter k c.id = true →
    (grantsOn t userID c.id).length ≤ 1 ∧
      (k.readOnly = true → ∀ g ∈ grantsOn t userID c.id, g.role = viewer)

variable {limit : ℕ}

theorem ListAgrees.tiesOnOnePage (h : ListAgrees t k userID limit) (hlimit : 0 < limit) :
    ListTiesOnOnePage t k userID limit := by
  intro category
  by_contra hties
  obtain ⟨orders, horders, hrepeated⟩ := exists_repeated (returned_insertionSort _) hties
    (Nat.le_mul_of_pos_right (listRows t k userID category).length hlimit)
  exact hrepeated (h.once category orders horders).of_map

theorem ListAgrees.oneRowEach (h : ListAgrees t k userID limit) (hlimit : 0 < limit) :
    OneRowEach t k userID := by
  have horders : ListOrders t k userID [] fun _ => sortedRows t k userID [] :=
    fun _ => returned_insertionSort _
  have hperm := listPages_perm hlimit (h.tiesOnOnePage hlimit) horders
  intro c hc hfilter
  have hrows : roleRows t k userID [] c = (grantsOn t userID c.id).map fun g => (c, g.role) := by
    rw [roleRows_eq, if_pos ⟨Or.inl rfl, hfilter⟩]
  constructor
  · have hnodup : ((listRows t k userID []).map fun r => r.1.id).Nodup :=
      (hperm.map _).nodup_iff.1 (h.once [] _ horders)
    rw [listRows, List.map_flatMap, List.nodup_flatMap] at hnodup
    have hconnector := hnodup.1 c hc
    rw [hrows, List.map_map] at hconnector
    by_contra hlength
    cases hgrants : grantsOn t userID c.id with
    | nil => simp [hgrants] at hlength
    | cons g gs =>
        cases gs with
        | nil => simp [hgrants] at hlength
        | cons g' gs => simp [hgrants] at hconnector
  · intro hreadOnly g hg
    have hr : (c, g.role) ∈ listRows t k userID [] :=
      mem_listRows.2 ⟨hc, Or.inl rfl, hfilter, g, hg, rfl⟩
    obtain ⟨-, -, hrole⟩ := h.row [] _ horders _ (hperm.mem_iff.2 hr)
    rcases getUserConnectorRole_spec t k userID c.id with ⟨hnil, -⟩ | ⟨g', hg', -, hspec⟩
    · simp [hnil] at hg
    · rw [clampConnectorRole_eq (t.role_ne_nil (mem_grantsOn.1 hg').1), if_pos hfilter,
        if_pos hreadOnly] at hspec
      exact hrole.trans hspec

/-- The query has one row for each connector. -/
theorem OneRowEach.nodup (h : OneRowEach t k userID) (category : Bytes) :
    ((listRows t k userID category).map fun r => r.1.id).Nodup := by
  rw [listRows, List.map_flatMap, List.nodup_flatMap]
  constructor
  · intro c hc
    rw [roleRows_eq]
    split
    · next hcond =>
        have hlength := (h c hc hcond.2).1
        cases hgrants : grantsOn t userID c.id with
        | nil => exact List.nodup_nil
        | cons g gs =>
            rw [hgrants, List.length_cons] at hlength
            obtain rfl := List.length_eq_zero_iff.1 (Nat.le_zero.1 (Nat.le_of_succ_le_succ hlength))
            exact List.nodup_singleton _
    · exact List.nodup_nil
  · refine (List.pairwise_map.1 t.connectors_nodup).imp fun {c c'} hne => ?_
    intro id hid hid'
    have hids : ∀ c : ConnectorRow, id ∈ (roleRows t k userID category c).map (fun r => r.1.id) →
        id = c.id := by
      intro c hmem
      rw [roleRows_eq] at hmem
      split at hmem
      · simp only [List.map_map, List.mem_map, Function.comp] at hmem
        obtain ⟨-, -, rfl⟩ := hmem
        rfl
      · simp at hmem
    exact hne ((hids c hid).symm.trans (hids c' hid'))

theorem OneRowEach.listAgrees (h : OneRowEach t k userID) (hlimit : 0 < limit)
    (hties : ListTiesOnOnePage t k userID limit) : ListAgrees t k userID limit where
  once category orders horders :=
    ((listPages_perm hlimit hties horders).map _).nodup_iff.2 (h.nodup category)
  listed category orders horders c hc hcategory := by
    have hperm := listPages_perm hlimit hties horders
    rw [userHasConnectorRole_viewer, List.mem_map]
    constructor
    · rintro ⟨r, hr, hid⟩
      obtain ⟨hconnector, -, hfilter, g, hg, -⟩ := mem_listRows.1 (hperm.mem_iff.1 hr)
      rw [hid] at hfilter hg
      exact ⟨hfilter, g, hg⟩
    · rintro ⟨hfilter, g, hg⟩
      have hr : (c, g.role) ∈ listRows t k userID category :=
        mem_listRows.2 ⟨hc, hcategory, hfilter, g, hg, rfl⟩
      exact ⟨(c, g.role), hperm.mem_iff.2 hr, rfl⟩
  row category orders horders r hr := by
    have hrow := (listPages_perm hlimit hties horders).mem_iff.1 hr
    obtain ⟨hc, hcategory, hfilter, g, hg, hrole⟩ := mem_listRows.1 hrow
    refine ⟨hc, hcategory, ?_⟩
    obtain ⟨hlength, hviewer⟩ := h r.1 hc hfilter
    rcases getUserConnectorRole_spec t k userID r.1.id with ⟨hnil, -⟩ | ⟨g', hg', -, hspec⟩
    · simp [hnil] at hg
    · have hsame : g' = g := by
        obtain ⟨a, ha⟩ := List.length_eq_one_iff.1 (le_antisymm hlength (List.length_pos_of_mem hg))
        rw [ha] at hg hg'
        rw [List.mem_singleton.1 hg, List.mem_singleton.1 hg']
      rw [hspec, clampConnectorRole_eq (t.role_ne_nil (mem_grantsOn.1 hg').1), if_pos hfilter, hsame,
        ← hrole]
      split
      · next hreadOnly => exact hviewer hreadOnly g hg
      · rfl
  total category orders horders order offset :=
    (listPages_perm hlimit hties horders).length_eq.symm

/-! ### All paths -/

/-- **All paths give the same answer** for the user. -/
structure PathsAgree (t : GrantTables) (k : APIKeyRestriction) (userID : Bytes) (limit : ℕ) :
    Prop where
  filter : ∀ ids minRole, filterConnectorIDsByGrant t k userID ids minRole =
    ids.filter fun id => userHasConnectorRole t k userID id minRole
  list : ListAgrees t k userID limit
  any : k.readOnly = false → ∀ minRole, userHasAnyConnectorRole t k userID minRole = true ↔
    ∃ c ∈ t.connectors, userHasConnectorRole t k userID c.id minRole = true
  approvers : ∀ u ∈ t.users, u.id = userID → ∀ (ids steps : List Bytes) (startedBy : Bytes),
    (∀ c, c ≠ [] → (c ∈ ids ↔ c ∈ steps)) →
      (u.id ∈ eligibleRunbookApprovers t ids startedBy ↔
        canApproveRun t u.session startedBy steps = true)

/-- **The paths agree if and only if the user's list has one row for each connector**, with a role
that the key leaves, and its pages, of `limit + 1` rows, part no connectors of one time. -/
theorem pathsAgree_iff (t : GrantTables) (k : APIKeyRestriction) (userID : Bytes) (limit : ℕ) :
    PathsAgree t k userID (limit + 1) ↔
      OneRowEach t k userID ∧ ListTiesOnOnePage t k userID (limit + 1) := by
  have hlimit : 0 < limit + 1 := Nat.succ_pos limit
  constructor
  · intro h
    exact ⟨h.list.oneRowEach hlimit, h.list.tiesOnOnePage hlimit⟩
  · rintro ⟨hone, hties⟩
    exact
      { filter := fun _ _ => filterConnectorIDsByGrant_eq
        list := hone.listAgrees hlimit hties
        any := fun hreadOnly _ => userHasAnyConnectorRole_iff hreadOnly
        approvers := fun _ hu _ _ _ _ hids => mem_eligibleRunbookApprovers hu hids }

end Tables

/-- A user with a viewer's grant by hand and an operator's grant from the groups at login. -/
def twoSources : GrantTables where
  users := [⟨bytes "u", false, false⟩]
  connectors := [⟨bytes "c", bytes "dns", bytes "2026"⟩]
  grants :=
    [⟨bytes "u", bytes "c", bytes "viewer", bytes "manual"⟩,
      ⟨bytes "u", bytes "c", bytes "operator", bytes "oidc"⟩]
  users_nodup := by decide
  users_ne_nil := by decide
  connectors_nodup := by decide
  grants_nodup := by decide
  grants_role := by decide
  grants_connector := by decide

/-- **A connector with grants from two sources is listed twice**, once with a role that is not the
user's. -/
theorem list_repeats_connector :
    Returned NotOlder rowTime (listRows twoSources unrestricted (bytes "u") [])
        (listRows twoSources unrestricted (bytes "u") []) ∧
      (listConnectorsForUser twoSources unrestricted (bytes "u") []
        (listRows twoSources unrestricted (bytes "u") []) 0 10).1.map Prod.snd = [viewer, operator] ∧
      (listConnectorsForUser twoSources unrestricted (bytes "u") [] [] 0 10).2 = 2 ∧
      getUserConnectorRole twoSources unrestricted (bytes "u") (bytes "c") = operator ∧
      ¬ PathsAgree twoSources unrestricted (bytes "u") 10 := by
  have horder : Returned NotOlder rowTime (listRows twoSources unrestricted (bytes "u") [])
      (listRows twoSources unrestricted (bytes "u") []) := ⟨List.Perm.refl _, by decide⟩
  refine ⟨horder, by decide, by decide, by decide, fun h => ?_⟩
  have honce := h.list.once [] _ fun _ => horder
  revert honce
  decide

end WiseLabz.Access
