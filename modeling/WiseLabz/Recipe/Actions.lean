/-
**The actions of a recipe.**

A recipe declares actions on its entities.  The path, the query and the strings of the body of an
action are templates with placeholders for the external id and the attributes of the entity that
the action is taken on.  The recipe is checked when it is saved; the placeholders are resolved when
the action is taken, with values that the service itself has reported.

Main definitions:

* `Recipe.pieces` — the bytes and the placeholders of a template;
* `Recipe.validateRecipeActions` — the checks of the actions of a recipe;
* `Recipe.resolveRecipeAction` — **an action with the values of an entity**.
-/

import WiseLabz.Lib.Split
import WiseLabz.Lib.Fallible
import WiseLabz.Recipe.Format
import Mathlib.Data.List.Infix

set_option relaxedAutoImplicit false
set_option autoImplicit false

namespace WiseLabz.Recipe

open Lib

/-! ### Data -/

/-- A decoded value. -/
inductive BodyValue
  | null
  | bool (b : Bool)
  | int (i : ℤ)
  /-- By the bits of a 64-bit number. -/
  | float (bits : UInt64)
  | string (s : Bytes)
  | time
  /-- A value of any other type. -/
  | other (type : Bytes)
  | array (items : List BodyValue)
  /-- A `map[string]any` or, with `anyKeys`, a `map[any]any`, where a key that is no string is `none`. -/
  | object (anyKeys : Bool) (members : List (Option Bytes × BodyValue))

def BodyValue.isNull : BodyValue → Bool
  | .null => true
  | _ => false

structure RecipeAction where
  method : Bytes
  path : Bytes
  query : List (Bytes × Bytes)
  headers : List (Bytes × Bytes)
  body : BodyValue
  label : Bytes
  description : Bytes
  downtimeSeconds : Option ℤ
  hasBody : Bool

/-- The entity of an endpoint with the actions declared on it. -/
structure EntityActions (A : Type) where
  entity : RecipeEntity A
  actions : List (Bytes × RecipeAction)

/-- The value of an attribute of an entity that was found. -/
inductive AttributeValue
  | null
  | string (s : Bytes)
  | bool (b : Bool)
  | int (i : ℤ)
  | float (bits : UInt64) (bitSize : ℕ)
  /-- A `json.Number`. -/
  | number (text : Bytes)
  /-- A list or a map. -/
  | other
  deriving DecidableEq, Repr

structure SnapshotEntity where
  externalID : Bytes
  attributes : List (Bytes × AttributeValue)
  deriving DecidableEq, Repr

/-! ### Templates -/

/-- What a template is made of. -/
inductive Piece
  | byte (b : UInt8)
  | placeholder (name : Bytes)
  | unclosed
  | unmatched
  deriving DecidableEq, Repr

/-- The piece that begins with a byte, and what follows it: a doubled brace is one byte, and a
placeholder ends at the first closing brace. -/
def nextPiece (b : UInt8) (rest : Bytes) : Piece × Bytes :=
  if b = 123 then
    if rest.head? = some 123 then (.byte 123, rest.tail)
    else
      match (cut 125 rest).2 with
      | some after => (.placeholder (cut 125 rest).1, after)
      | none => (.unclosed, [])
  else if b = 125 then
    if rest.head? = some 125 then (.byte 125, rest.tail) else (.unmatched, rest)
  else (.byte b, rest)

theorem nextPiece_length (b : UInt8) (rest : Bytes) :
    (nextPiece b rest).2.length ≤ rest.length := by
  have htail : rest.tail.length ≤ rest.length := by
    rw [List.length_tail]
    exact Nat.sub_le _ _
  unfold nextPiece
  split
  · split
    · exact htail
    · split
      · next h => exact (length_lt_of_cut h).le
      · exact Nat.zero_le _
  · split
    · split
      · exact htail
      · exact le_refl _
    · exact le_refl _

/-- **The pieces of a template.** -/
def pieces : Bytes → List Piece
  | [] => []
  | b :: rest => (nextPiece b rest).1 :: pieces (nextPiece b rest).2
termination_by value => value.length
decreasing_by exact Nat.lt_succ_of_le (nextPiece_length b rest)

/-- The problem of a placeholder's name. -/
def placeholderIssue (name : Bytes) : Option Bytes :=
  if name = bytes "external_id" then none
  else
    match stripPrefix (bytes "attr.") name with
    | none => some (bytes "contains unsupported placeholder \x7b" ++ name ++ bytes "\x7d")
    | some [] => some (bytes "attribute placeholder must name a mapped attribute")
    | some (_ :: _) => none

/-- The placeholders and the problems of some pieces. -/
def parsePieces : List Piece → List Bytes × List Bytes
  | [] => ([], [])
  | .byte _ :: rest => parsePieces rest
  | .placeholder name :: rest =>
      match placeholderIssue name with
      | some issue => ((parsePieces rest).1, issue :: (parsePieces rest).2)
      | none => (name :: (parsePieces rest).1, (parsePieces rest).2)
  | .unclosed :: _ => ([], [bytes "has an unclosed placeholder"])
  | .unmatched :: rest =>
      ((parsePieces rest).1, bytes "has an unmatched closing brace" :: (parsePieces rest).2)

/-- `parseActionPlaceholders`. -/
def parseActionPlaceholders (value : Bytes) : List Bytes × List Bytes := parsePieces (pieces value)

section Validation

variable {A : Type}

/-- The problem of a placeholder that a template of an entity's action has. -/
def attributeIssue (entity : RecipeEntity A) (location name : Bytes) : List RecipeIssue :=
  match stripPrefix (bytes "attr.") name with
  | none => []
  | some attr =>
      if attr ∉ entity.attributes.map Prod.fst then
        [⟨location, bytes "placeholder \x7battr." ++ attr ++
          bytes "\x7d does not name an attribute mapped by this endpoint"⟩]
      else
        issueIf (attr.any fun b => b = 63 || b = 123 || b = 125) location
          (bytes "placeholder \x7battr." ++ attr ++
            bytes "\x7d names an attribute that cannot be used in a placeholder; " ++
            bytes "map it under a name without ?, \x7b or \x7d")

/-- `validateActionTemplate`; an action of the service has no entity. -/
def validateActionTemplate (value location : Bytes) (entity : Option (RecipeEntity A)) :
    List RecipeIssue :=
  let (placeholders, parseIssues) := parseActionPlaceholders value
  (parseIssues.map fun message => ⟨location, message⟩) ++
    if placeholders = [] then []
    else
      match entity with
      | none => [⟨location, bytes "service actions cannot contain placeholders"⟩]
      | some entity => placeholders.flatMap (attributeIssue entity location)

mutual

/-- `validateActionBodyTemplates`. -/
def validateActionBodyTemplates (entity : Option (RecipeEntity A)) :
    BodyValue → Bytes → List RecipeIssue
  | .string s, location => validateActionTemplate s location entity
  | .array items, location => validateItemTemplates entity items 0 location
  | .object _ members, location => validateMemberTemplates entity members location
  | _, _ => []

/-- The items of an array, from index `i` on. -/
def validateItemTemplates (entity : Option (RecipeEntity A)) :
    List BodyValue → ℕ → Bytes → List RecipeIssue
  | [], _, _ => []
  | item :: rest, i, location =>
      validateActionBodyTemplates entity item
          (location ++ bytes "[" ++ bytes (toString i) ++ bytes "]") ++
        validateItemTemplates entity rest (i + 1) location

/-- The members of an object; one whose key is no string is passed over. -/
def validateMemberTemplates (entity : Option (RecipeEntity A)) :
    List (Option Bytes × BodyValue) → Bytes → List RecipeIssue
  | [], _ => []
  | (some name, item) :: rest, location =>
      validateActionBodyTemplates entity item (location ++ bytes "." ++ name) ++
        validateMemberTemplates entity rest location
  | (none, _) :: rest, location => validateMemberTemplates entity rest location

end

mutual

/-- `validateJSONValue`; an error is its text. -/
def validateJSONValue : BodyValue → ℕ → Option Bytes
  | .array items, depth =>
      if 128 < depth then some (bytes "JSON body nesting exceeds 128 levels")
      else validateJSONItems items (depth + 1)
  | .object _ members, depth =>
      if 128 < depth then some (bytes "JSON body nesting exceeds 128 levels")
      else validateJSONMembers members (depth + 1)
  | value, depth =>
      if 128 < depth then some (bytes "JSON body nesting exceeds 128 levels")
      else
        match value with
        | .time => some (bytes "timestamp scalars must be quoted strings")
        | .other type => some (bytes "unsupported JSON value " ++ type)
        | _ => none

def validateJSONItems : List BodyValue → ℕ → Option Bytes
  | [], _ => none
  | item :: rest, depth => (validateJSONValue item depth).or (validateJSONItems rest depth)

def validateJSONMembers : List (Option Bytes × BodyValue) → ℕ → Option Bytes
  | [], _ => none
  | (key, item) :: rest, depth =>
      if key = none then some (bytes "object keys must be strings")
      else (validateJSONValue item depth).or (validateJSONMembers rest depth)

end

/-- The text of a number that JSON has no form for. -/
def notFinite (bits : UInt64) : Option Bytes :=
  if bits >>> 52 &&& 0x7FF ≠ 0x7FF then none
  else if bits &&& 0xFFFFFFFFFFFFF ≠ 0 then some (bytes "NaN")
  else if bits >>> 63 = 0 then some (bytes "+Inf")
  else some (bytes "-Inf")

mutual

/-- The error of `json.Marshal`. -/
def marshalError : BodyValue → Option Bytes
  | .float bits => (notFinite bits).map (bytes "json: unsupported value: " ++ ·)
  | .array items => marshalItemsError items
  | .object anyKeys members =>
      if anyKeys then some (bytes "json: unsupported type: map[interface \x7b\x7d]interface \x7b\x7d")
      else marshalMembersError members
  | .other type => some (bytes "json: unsupported type: " ++ type)
  | _ => none

def marshalItemsError : List BodyValue → Option Bytes
  | [] => none
  | item :: rest => (marshalError item).or (marshalItemsError rest)

def marshalMembersError : List (Option Bytes × BodyValue) → Option Bytes
  | [] => none
  | (_, item) :: rest => (marshalError item).or (marshalMembersError rest)

end

/-- What `url.Parse` reads of a reference. -/
structure Url where
  scheme : Bytes
  host : Bytes
  fragment : Bytes

/-- `validateEndpointPath`; an error is its text. -/
def validateEndpointPath (urlParse : Bytes → Option Url) (raw : Bytes) : Option Bytes :=
  if trimSpace raw = [] then some (bytes "is required")
  else
    match urlParse raw with
    | none => some (bytes "is malformed")
    | some u =>
        if u.scheme ≠ [] then some (bytes "must be relative to the connector URL")
        else if (stripPrefix (bytes "//") raw).isSome || u.host ≠ [] then
          some (bytes "must not be scheme-relative")
        else if u.fragment ≠ [] then some (bytes "must not contain a fragment")
        else none

def isLower (b : UInt8) : Bool := 97 ≤ b && b ≤ 122

def isUpper (b : UInt8) : Bool := 65 ≤ b && b ≤ 90

def isDigit (b : UInt8) : Bool := 48 ≤ b && b ≤ 57

/-- `validActionName`. -/
def validActionName (name : Bytes) : Bool :=
  match name with
  | [] => false
  | b :: rest =>
      name.length ≤ 32 && isLower b &&
        rest.all fun c => isLower c || isDigit c || c = 95 || c = 45

/-- `validHeaderName`. -/
def validHeaderName (name : Bytes) : Bool :=
  name ≠ [] && name.all fun b => isLower b || isUpper b || isDigit b || b ∈ bytes "!#$%&'*+-.^_`|~"

/-- `validHeaderValue`. -/
def validHeaderValue (value : Bytes) : Bool :=
  value.all fun b => !((b < 0x20 && b ≠ 9) || b = 0x7F)

/-- The number of characters after `n` bytes that belong to the last one. -/
def runeCountFrom : ℕ → Bytes → ℕ
  | _, [] => 0
  | n + 1, _ :: s => runeCountFrom n s
  | 0, b :: s => 1 + runeCountFrom (runeWidth (b :: s) - 1) s

/-- The entries of a map, sorted by their keys. -/
def sortedEntries {B : Type} (m : List (Bytes × B)) : List (Bytes × B) :=
  m.mergeSort fun x y => decide (x.1 ≤ y.1)

/-- The problems of the body of an action. -/
def bodyIssues (entity : Option (RecipeEntity A)) (action : RecipeAction) (location : Bytes) :
    List RecipeIssue :=
  if action.hasBody || !action.body.isNull then
    match validateJSONValue action.body 0 with
    | some err => [⟨location, bytes "must be a static JSON value: " ++ err⟩]
    | none =>
        match marshalError action.body with
        | some err => [⟨location, bytes "must be a static JSON value: " ++ err⟩]
        | none => validateActionBodyTemplates entity action.body location
  else []

/-- The problems of one action. -/
def actionIssues (urlParse : Bytes → Option Url) (entity : Option (RecipeEntity A))
    (base name : Bytes) (action : RecipeAction) : List RecipeIssue :=
  let location := base ++ bytes "." ++ name
  issueIf (!validActionName name) location
      (bytes ("must start with a lowercase letter and contain only lowercase letters, digits, " ++
        "underscores, and hyphens (at most 32 characters)")) ++
    issueIf (action.method ∉ [bytes "POST", bytes "PUT", bytes "PATCH", bytes "DELETE"])
      (location ++ bytes ".method") (bytes "must be POST, PUT, PATCH, or DELETE") ++
    (match validateEndpointPath urlParse action.path with
      | some err => [⟨location ++ bytes ".path", bytes "must be a relative path: " ++ err⟩]
      | none => []) ++
    ((sortedEntries action.query).flatMap fun (key, value) =>
      validateActionTemplate value (location ++ bytes ".query." ++ key) entity) ++
    ((sortedEntries action.headers).flatMap fun (header, value) =>
      issueIf (!validHeaderName header) (location ++ bytes ".headers." ++ header)
          (bytes "must be a valid HTTP header name") ++
        issueIf (!validHeaderValue value) (location ++ bytes ".headers." ++ header)
          (bytes "contains an invalid HTTP header control byte")) ++
    bodyIssues entity action (location ++ bytes ".body") ++
    issueIf (60 < runeCountFrom 0 action.label) (location ++ bytes ".label")
      (bytes "must be at most 60 characters") ++
    issueIf (300 < runeCountFrom 0 action.description) (location ++ bytes ".description")
      (bytes "must be at most 300 characters") ++
    issueIf (action.downtimeSeconds.any fun d => d < 0 || 3600 < d)
      (location ++ bytes ".downtime_seconds") (bytes "must be between 0 and 3600 seconds") ++
    validateActionTemplate action.path (location ++ bytes ".path") entity ++
    (match (cut 63 action.path).2 with
      | some query =>
          issueIf ((parseActionPlaceholders query).1 ≠ []) (location ++ bytes ".path")
            (bytes ("placeholders are not allowed in the query string of path; " ++
              "declare them under query"))
      | none => [])

/-- `validateActionSet`. -/
def validateActionSet (urlParse : Bytes → Option Url) (actions : List (Bytes × RecipeAction))
    (entity : Option (RecipeEntity A)) (base : Bytes) : List RecipeIssue :=
  issueIf (10 < actions.length) base (bytes "must contain at most 10 actions") ++
    (sortedEntries actions).flatMap fun (name, action) =>
      actionIssues urlParse entity base name action

/-- The problems of the entity actions of the endpoints from index `i` on. -/
def validateEntityActions (urlParse : Bytes → Option Url) :
    List (EntityActions A) → ℕ → List Bytes → List RecipeIssue
  | [], _, _ => []
  | endpoint :: rest, i, declaredKinds =>
      if endpoint.actions = [] then validateEntityActions urlParse rest (i + 1) declaredKinds
      else
        let base := bytes "endpoints[" ++ bytes (toString i) ++ bytes "].entity.actions"
        issueIf (endpoint.entity.kind ∈ declaredKinds) base
            (bytes "actions for this entity kind are already declared on another endpoint") ++
          validateActionSet urlParse endpoint.actions (some endpoint.entity) base ++
          validateEntityActions urlParse rest (i + 1) (endpoint.entity.kind :: declaredKinds)

/-- **The checks of the actions of a recipe**, those of the service and those of its entities. -/
def validateRecipeActions (urlParse : Bytes → Option Url) (actions : List (Bytes × RecipeAction))
    (endpoints : List (EntityActions A)) : List RecipeIssue :=
  validateActionSet (A := A) urlParse actions none (bytes "actions") ++
    validateEntityActions urlParse endpoints 0 []

end Validation

/-! ### Resolution -/

/-- Why a value is no path segment. -/
inductive RefError
  | empty | traversal | character
  deriving DecidableEq, Repr

/-- Why a template is not resolved. -/
inductive ActionCause
  | unclosed
  | unmatched
  | unsupported (name : Bytes)
  | serviceAttribute
  | queryPlaceholder
  | bodyKey
  | emptyExternalID
  | missing (attr : Bytes)
  | notScalar (attr : Bytes)
  | segment (name value : Bytes) (err : RefError)
  deriving DecidableEq, Repr

/-- Which template of an action is not resolved, and why. -/
inductive ActionError
  | path (cause : ActionCause)
  | query (key : Bytes) (cause : ActionCause)
  | body (cause : ActionCause)
  deriving DecidableEq, Repr

def ActionError.cause : ActionError → ActionCause
  | .path cause => cause
  | .query _ cause => cause
  | .body cause => cause

/-- `ValidateRefSegment`. -/
def validateRefSegment (s : Bytes) : Except RefError Unit :=
  if s = [] then .error .empty
  else if s = bytes "." ∨ bytes ".." <:+: s then .error .traversal
  else if s.any fun r => r ≤ 0x20 || 0x7F ≤ r || r ∈ bytes "/\\?#%;" then .error .character
  else .ok ()

/-- The upper-case hex digit of a number below 16. -/
def upperHexDigit (n : UInt8) : UInt8 := if n < 10 then 48 + n else 55 + n

/-- A byte as `url.PathEscape` writes it. -/
def escapeByte (b : UInt8) : Bytes :=
  if isLower b || isUpper b || isDigit b || b ∈ bytes "-_.~$&+:=@" then [b]
  else [37, upperHexDigit (b >>> 4), upperHexDigit (b &&& 15)]

/-- `url.PathEscape`. -/
def pathEscape (s : Bytes) : Bytes := s.flatMap escapeByte

/-- `PathSegment`. -/
def pathSegment (s : Bytes) : Except RefError Bytes := do
  validateRefSegment s
  return pathEscape s

section Resolution

variable (formatFloat : UInt64 → ℕ → Bytes)

/-- The text of a scalar. -/
def scalarText : AttributeValue → Option Bytes
  | .string s => some s
  | .bool b => some (bytes (toString b))
  | .int i => some (bytes (toString i))
  | .float bits bitSize => some (formatFloat bits bitSize)
  | .number text => some text
  | .null => none
  | .other => none

/-- `actionPlaceholderValue`. -/
def actionPlaceholderValue (name : Bytes) (entity : Option SnapshotEntity) :
    Except ActionCause Bytes :=
  if name = bytes "external_id" then
    let value := (entity.map SnapshotEntity.externalID).getD []
    if value = [] then .error .emptyExternalID else .ok value
  else
    match stripPrefix (bytes "attr.") name with
    | none => .error (.unsupported name)
    | some attr =>
        match entity with
        | none => .error .serviceAttribute
        | some entity =>
            match entity.attributes.lookup attr with
            | none => .error (.missing attr)
            | some .null => .error (.missing attr)
            | some value =>
                match scalarText formatFloat value with
                | some text => .ok text
                | none => .error (.notScalar attr)

/-- The text of a piece; in a path a value is one segment. -/
def resolvePiece (entity : Option SnapshotEntity) (pathSegments : Bool) :
    Piece → Except ActionCause Bytes
  | .byte b => .ok [b]
  | .placeholder name => do
      let value ← actionPlaceholderValue formatFloat name entity
      if pathSegments then (pathSegment value).mapError (.segment name value) else .ok value
  | .unclosed => .error .unclosed
  | .unmatched => .error .unmatched

def resolvePieces (entity : Option SnapshotEntity) (pathSegments : Bool) :
    List Piece → Except ActionCause Bytes
  | [] => .ok []
  | piece :: rest => do
      let text ← resolvePiece formatFloat entity pathSegments piece
      let out ← resolvePieces entity pathSegments rest
      .ok (text ++ out)

/-- `resolveActionTemplate`. -/
def resolveActionTemplate (value : Bytes) (entity : Option SnapshotEntity) (pathSegments : Bool) :
    Except ActionCause Bytes :=
  resolvePieces formatFloat entity pathSegments (pieces value)

mutual

/-- `resolveActionBody`. -/
def resolveActionBody (entity : Option SnapshotEntity) : BodyValue → Except ActionCause BodyValue
  | .string s => do
      let text ← resolveActionTemplate formatFloat s entity false
      .ok (.string text)
  | .array items => do
      let out ← resolveBodyItems entity items
      .ok (.array out)
  | .object _ members => do
      let out ← resolveBodyMembers entity members
      .ok (.object false out)
  | value => .ok value

def resolveBodyItems (entity : Option SnapshotEntity) :
    List BodyValue → Except ActionCause (List BodyValue)
  | [] => .ok []
  | item :: rest => do
      let resolved ← resolveActionBody entity item
      let out ← resolveBodyItems entity rest
      .ok (resolved :: out)

def resolveBodyMembers (entity : Option SnapshotEntity) :
    List (Option Bytes × BodyValue) → Except ActionCause (List (Option Bytes × BodyValue))
  | [] => .ok []
  | (key, item) :: rest =>
      if key = none then .error .bodyKey
      else do
        let resolved ← resolveActionBody entity item
        let out ← resolveBodyMembers entity rest
        .ok ((key, resolved) :: out)

end

/-- The query of a resolved action. -/
def resolveQuery (entity : Option SnapshotEntity) :
    List (Bytes × Bytes) → Except ActionError (List (Bytes × Bytes))
  | [] => .ok []
  | (key, value) :: rest => do
      let text ← (resolveActionTemplate formatFloat value entity false).mapError (.query key)
      let out ← resolveQuery entity rest
      .ok ((key, text) :: out)

/-- The path of a resolved action: its query string may have no placeholders. -/
def resolvePath (entity : Option SnapshotEntity) (path : Bytes) : Except ActionCause Bytes := do
  let text ← resolveActionTemplate formatFloat (cut 63 path).1 entity true
  match (cut 63 path).2 with
  | none => .ok text
  | some query =>
      if (parseActionPlaceholders query).1 ≠ [] then .error .queryPlaceholder
      else do
        let queryString ← resolveActionTemplate formatFloat query entity false
        .ok (text ++ 63 :: queryString)

/-- The body of a resolved action. -/
def resolveBody (entity : Option SnapshotEntity) (action : RecipeAction) :
    Except ActionError BodyValue :=
  if action.hasBody || !action.body.isNull then
    (resolveActionBody formatFloat entity action.body).mapError .body
  else .ok action.body

/-- **An action with the values of an entity.** -/
def resolveRecipeAction (action : RecipeAction) (entity : Option SnapshotEntity) :
    Except ActionError RecipeAction := do
  let path ← (resolvePath formatFloat entity action.path).mapError .path
  let query ← resolveQuery formatFloat entity action.query
  let body ← resolveBody formatFloat entity action
  .ok { action with path := path, query := query, body := body }

end Resolution

end WiseLabz.Recipe
