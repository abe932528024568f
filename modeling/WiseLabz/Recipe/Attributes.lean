/-
**The attributes of a recipe.**

An attribute of an entity is taken from a constant, from a path into the response, or from a
template that is expanded with such paths; a map and a default may then replace what was taken, and
the result is converted to the type of the attribute.  A recipe is checked when it is saved, so that
what does not depend on a response need not fail on every sync.

Main definitions:

* `Recipe.RecipeValue` — a value of a recipe or of a response;
* `Recipe.convertRecipeAttribute` — the conversion to a type;
* `Recipe.templatePaths`, `Recipe.expandRecipeTemplate` — the check of a template, and its
  expansion;
* `Recipe.mapRecipeAttribute`, `Recipe.addRecipeDependencies` — **what is mapped** from a response;
* `Recipe.markAttribute`, `Recipe.markDependency` — which keys a definition has;
* `Recipe.validateRecipeEntity`, `Recipe.validateDependencies` — **the checks** of a recipe.
-/

import WiseLabz.Lib.Table
import WiseLabz.Recipe.Actions
import WiseLabz.Lib.Json

set_option relaxedAutoImplicit false
set_option autoImplicit false

namespace WiseLabz.Recipe

open Lib

/-! ### Values -/

/-- A value of a recipe or of a response, of the types that decoding them gives. -/
inductive RecipeValue
  | null
  | bool (b : Bool)
  | int (i : ℤ)
  /-- A `float64`, by its bits. -/
  | float (bits : UInt64)
  | string (s : Bytes)
  /-- A `json.Number`. -/
  | number (text : Bytes)
  /-- A `time.Time`, by its text. -/
  | time (text : Bytes)
  /-- A `[]string`. -/
  | strings (items : List Bytes)
  | array (items : List RecipeValue)
  /-- A `map[string]any` or, with `anyKeys`, a `map[any]any`, where a key that is no string is
  `none`. -/
  | object (anyKeys : Bool) (members : List (Option Bytes × RecipeValue))

/-- The name of the type, as `%T` writes it. -/
def RecipeValue.typeName : RecipeValue → Bytes
  | .null => bytes "<nil>"
  | .bool _ => bytes "bool"
  | .int i => if i < 2 ^ 63 then bytes "int" else bytes "uint64"
  | .float _ => bytes "float64"
  | .string _ => bytes "string"
  | .number _ => bytes "json.Number"
  | .time _ => bytes "time.Time"
  | .strings _ => bytes "[]string"
  | .array _ => bytes "[]interface \x7b\x7d"
  | .object false _ => bytes "map[string]interface \x7b\x7d"
  | .object true _ => bytes "map[interface \x7b\x7d]interface \x7b\x7d"

/-- How numbers and quoted texts are written. -/
structure Formats where
  /-- `strconv.FormatFloat` with format `g`, by the bits and their number. -/
  float : UInt64 → ℕ → Bytes
  /-- A number that is finite, as `json.Marshal` writes it. -/
  json : UInt64 → NumberText
  /-- `%q`. -/
  quote : Bytes → Bytes

/-! ### Numbers -/

/-- The value of some digits. -/
def digitsValue (digits : Bytes) : ℕ := digits.foldl (fun n d => 10 * n + (d.toNat - 48)) 0

/-- The digits after the point of a number, and what follows them. -/
def takeFraction : Bytes → Option (Bytes × Bytes)
  | 46 :: s => if (s.takeWhile isDigit) = [] then none else some (s.span isDigit)
  | s => some ([], s)

/-- The exponent of a number, which ends there. -/
def takeExponent : Bytes → Option ℤ
  | [] => some 0
  | e :: s =>
      if e ≠ 101 ∧ e ≠ 69 then none
      else
        let digits := if s.head? = some 43 ∨ s.head? = some 45 then s.tail else s
        if digits = [] ∨ digits.all isDigit = false then none
        else if s.head? = some 45 then some (-digitsValue digits)
        else some (digitsValue digits)

/-- The number of a JSON text, without its sign: `m * 10 ^ e`. -/
def numberValue (text : Bytes) : Option (ℕ × ℤ) := do
  let s := if text.head? = some 45 then text.tail else text
  let whole := s.takeWhile isDigit
  if whole = [] ∨ (whole.head? = some 48 ∧ whole ≠ [48]) then none
  let (fraction, rest) ← takeFraction (s.dropWhile isDigit)
  let exponent ← takeExponent rest
  some (digitsValue (whole ++ fraction), exponent - fraction.length)

/-- Whether the nearest `float64` is finite. -/
def inFloatRange (m : ℕ) (e : ℤ) : Bool :=
  let bound := 2 ^ 1024 - 2 ^ 970
  if 0 ≤ e then m * 10 ^ e.toNat < bound else m < bound * 10 ^ (-e).toNat

/-- `validateRecipeNumber`; an error is its text. -/
def validateRecipeNumber (text : Bytes) : Option Bytes :=
  match numberValue text with
  | some (m, e) =>
      if inFloatRange m e then none else some (bytes "number is outside the supported range")
  | none => some (bytes "number is outside the supported range")

/-- The value of a hexadecimal digit. -/
def hexValue (b : UInt8) : Option UInt8 :=
  if isDigit b then some (b - 48)
  else if 97 ≤ b ∧ b ≤ 102 then some (b - 87)
  else if 65 ≤ b ∧ b ≤ 70 then some (b - 55)
  else none

/-- A JSON string of which a number may be made, after its opening quote: no escape but that of a
character by its number stands for a byte of a number. -/
def unquoteNumber : Bytes → Option Bytes
  | [] => none
  | [34] => some []
  | 92 :: 117 :: 48 :: 48 :: c :: d :: rest => do
      let high ← hexValue c
      let low ← hexValue d
      let text ← unquoteNumber rest
      some ((16 * high + low) :: text)
  | b :: rest =>
      if b = 34 ∨ b = 92 then none else (unquoteNumber rest).map (b :: ·)

/-- A JSON text that is decoded as a `json.Number`: a number, a string with a number in it, or
null, which leaves an empty text. -/
def decodeNumber (text : Bytes) : Option Bytes :=
  if (numberValue text).isSome then some text
  else if text = bytes "null" then some []
  else if text.head? = some 34 then
    (unquoteNumber text.tail).filter fun t => (numberValue t).isSome
  else none

/-! ### Conversions -/

section Conversions

variable (fmt : Formats)

def recipeValueString : RecipeValue → Except Bytes Bytes
  | .string s => .ok s
  | .number text => .ok text
  | .bool b => .ok (bytes (toString b))
  | .int i => .ok (bytes (toString i))
  | .float bits =>
      if (notFinite bits).isSome then .error (bytes "value is not a finite number")
      else .ok (fmt.float bits 64)
  | value => .error (bytes "cannot convert " ++ value.typeName ++ bytes " to string")

def recipeValueNumber (value : RecipeValue) : Except Bytes Bytes := do
  let text ← recipeValueString fmt value
  match decodeNumber (trimSpace text) with
  | none => .error (bytes "value is not a number")
  | some number =>
      match validateRecipeNumber number with
      | some err => .error err
      | none => .ok number

def recipeValueBool : RecipeValue → Except Bytes Bool
  | .bool b => .ok b
  | .string s =>
      if s = bytes "true" then .ok true
      else if s = bytes "false" then .ok false
      else .error (bytes "value is not a boolean")
  | value => .error (bytes "cannot convert " ++ value.typeName ++ bytes " to boolean")

/-- The items of a list from the `i`-th one on, which have to be strings. -/
def stringItems : ℕ → List RecipeValue → Except Bytes (List Bytes)
  | _, [] => .ok []
  | i, .string s :: rest => (stringItems (i + 1) rest).map (s :: ·)
  | i, value :: _ =>
      .error (bytes "list item " ++ bytes (toString i) ++ bytes " is " ++ value.typeName ++
        bytes ", not a string")

def recipeStringList : RecipeValue → Except Bytes (List Bytes)
  | .strings items => .ok items
  | .array items => stringItems 0 items
  | value => .error (bytes "cannot convert " ++ value.typeName ++ bytes " to a list of strings")

def jsonSafeRecipeValue : RecipeValue → Except Bytes RecipeValue
  | .null => .ok .null
  | .string s => .ok (.string s)
  | .bool b => .ok (.bool b)
  | .number text =>
      match validateRecipeNumber text with
      | some err => .error err
      | none => .ok (.number text)
  | .int i => .ok (.number (bytes (toString i)))
  | .float bits =>
      if (notFinite bits).isSome then .error (bytes "value is not a finite number")
      else .ok (.number (fmt.float bits 64))
  | .strings items => .ok (.strings items)
  | .array items => (recipeStringList (.array items)).map .strings
  | value => .error (value.typeName ++ bytes " is not a JSON-safe attribute value")

def validAttributeType (type : Bytes) : Bool :=
  type ∈ [bytes "string", bytes "number", bytes "bool", bytes "boolean", bytes "list",
    bytes "string_array"]

/-- **The conversion to a type.** -/
def convertRecipeAttribute (value : RecipeValue) (type : Bytes) : Except Bytes RecipeValue :=
  if type = [] then jsonSafeRecipeValue fmt value
  else if type = bytes "string" then (recipeValueString fmt value).map .string
  else if type = bytes "number" then (recipeValueNumber fmt value).map .number
  else if type = bytes "bool" ∨ type = bytes "boolean" then (recipeValueBool value).map .bool
  else if type = bytes "list" ∨ type = bytes "string_array" then
    (recipeStringList value).map .strings
  else .error (bytes "unsupported attribute type " ++ fmt.quote type)

/-! ### Keys of a map -/

/-- Some texts, one after the other. -/
def commaSeparated (texts : List Bytes) : Bytes := (texts.intersperse [44]).flatten

/-- The members of an object, or the first error. -/
def sequenceMembers : List (Bytes × Except Bytes Bytes) → Except Bytes (List Bytes)
  | [] => .ok []
  | (key, value) :: rest => do
      let text ← value
      let texts ← sequenceMembers rest
      .ok ((Lib.quote (jsonEncode key) ++ 58 :: text) :: texts)

mutual

/-- `json.Marshal`; an error is its text. -/
def marshalValue : RecipeValue → Except Bytes Bytes
  | .null => .ok (bytes "null")
  | .bool b => .ok (bytes (toString b))
  | .int i => .ok (bytes (toString i))
  | .float bits =>
      match notFinite bits with
      | some text => .error (bytes "json: unsupported value: " ++ text)
      | none => .ok (fmt.json bits).text
  | .string s => .ok (Lib.quote (jsonEncode s))
  | .number text =>
      if (numberValue text).isSome then .ok text
      else .error (bytes "json: invalid number literal " ++ fmt.quote text)
  | .time text => .ok (34 :: text ++ [34])
  | .strings items =>
      .ok (91 :: commaSeparated (items.map fun s => Lib.quote (jsonEncode s)) ++ [93])
  | .array items => (marshalValues items).map fun texts => 91 :: commaSeparated texts ++ [93]
  | .object true _ =>
      .error (bytes "json: unsupported type: map[interface \x7b\x7d]interface \x7b\x7d")
  | .object false members =>
      (sequenceMembers (sortedEntries (marshalEntries members))).map fun texts =>
        123 :: commaSeparated texts ++ [125]

def marshalValues : List RecipeValue → Except Bytes (List Bytes)
  | [] => .ok []
  | item :: rest => do
      let text ← marshalValue item
      let texts ← marshalValues rest
      .ok (text :: texts)

def marshalEntries : List (Option Bytes × RecipeValue) → List (Bytes × Except Bytes Bytes)
  | [] => []
  | (key, item) :: rest => (key.getD [], marshalValue item) :: marshalEntries rest

end

def recipeMapKey : RecipeValue → Except Bytes Bytes
  | .null => .ok (bytes "null")
  | .string s => .ok s
  | .number text => .ok text
  | .bool b => .ok (bytes (toString b))
  | value => (marshalValue fmt value).mapError (bytes "format map key: " ++ ·)

end Conversions

/-! ### Responses -/

/-- A value that is decoded from a response. -/
inductive JsonValue
  | null
  | bool (b : Bool)
  | string (s : Bytes)
  | number (text : Bytes) (valid : (numberValue text).isSome = true)
  | array (items : List JsonValue)
  | object (members : List (Bytes × JsonValue))

mutual

def JsonValue.toRecipe : JsonValue → RecipeValue
  | .null => .null
  | .bool b => .bool b
  | .string s => .string s
  | .number text _ => .number text
  | .array items => .array (JsonValue.toRecipeItems items)
  | .object members => .object false (JsonValue.toRecipeMembers members)

def JsonValue.toRecipeItems : List JsonValue → List RecipeValue
  | [] => []
  | item :: rest => item.toRecipe :: JsonValue.toRecipeItems rest

def JsonValue.toRecipeMembers : List (Bytes × JsonValue) → List (Option Bytes × RecipeValue)
  | [] => []
  | (key, item) :: rest => (some key, item.toRecipe) :: JsonValue.toRecipeMembers rest

end

/-- What a path into a response selects: nothing, or a value, which is decoded if it is a list or a
map. -/
inductive PathResult
  | missing
  | null
  | string (s : Bytes)
  | number (raw : Bytes)
  | bool (b : Bool)
  | json (value : Except Bytes JsonValue)

section Responses

variable (jsonPathValue : Bytes → Bytes → PathResult)

/-- `recipeGJSONValue`. -/
def recipeGJSONValue : PathResult → Except Bytes RecipeValue
  | .string s => .ok (.string s)
  | .number raw => .ok (.number raw)
  | .bool b => .ok (.bool b)
  | .json (.ok value) => .ok value.toRecipe
  | .json (.error err) => .error (bytes "decode JSON value: " ++ err)
  | .missing => .error (bytes "path did not resolve to a value")
  | .null => .error (bytes "path did not resolve to a value")

def recipePathValue (data path : Bytes) : Except Bytes (Option RecipeValue) :=
  if trimSpace path = [] then .error (bytes "path expression is empty")
  else
    match jsonPathValue data path with
    | .missing => .ok none
    | .null => .ok none
    | result => (recipeGJSONValue result).map some

def recipeGJSONString : PathResult → Except Bytes Bytes
  | .string s => .ok s
  | .number raw => .ok raw
  | .bool b => .ok (bytes (toString b))
  | _ => .error (bytes "path must resolve to a scalar value")

def recipePathString (data path : Bytes) : Except Bytes (Option Bytes) :=
  if trimSpace path = [] then .ok none
  else
    match jsonPathValue data path with
    | .missing => .ok none
    | .null => .ok none
    | result => (recipeGJSONString result).map some

/-! ### Templates -/

/-- Why a template is rejected, or not expanded. -/
inductive TemplateError
  | unclosed
  | unmatched
  | placeholder (path text : Bytes)
  | tooLarge
  deriving DecidableEq, Repr

def TemplateError.text (fmt : Formats) : TemplateError → Bytes
  | .unclosed => bytes "template has an unclosed placeholder"
  | .unmatched => bytes "template has an unmatched closing brace"
  | .placeholder path text => bytes "placeholder " ++ fmt.quote path ++ bytes ": " ++ text
  | .tooLarge => bytes "template output is too large"

/-- The paths of a template. -/
def templatePaths (validateGJSONPath : Bytes → Option Bytes) :
    Bytes → Except TemplateError (List Bytes)
  | [] => .ok []
  | 123 :: 123 :: rest => templatePaths validateGJSONPath rest
  | 123 :: rest =>
      match _h : (cut 125 rest).2 with
      | none => .error .unclosed
      | some after =>
          match validateGJSONPath (cut 125 rest).1 with
          | some err => .error (.placeholder (cut 125 rest).1 err)
          | none => do
              let paths ← templatePaths validateGJSONPath after
              .ok ((cut 125 rest).1 :: paths)
  | 125 :: 125 :: rest => templatePaths validateGJSONPath rest
  | 125 :: _ => .error .unmatched
  | _ :: rest => templatePaths validateGJSONPath rest
termination_by template => template.length
decreasing_by
  all_goals simp_wf
  all_goals
    first
    | omega
    | have := length_lt_of_cut _h
      omega

/-- **The expansion of a template**, after what is written already. -/
def expandRecipeTemplate (data : Bytes) (limit : ℤ) :
    Bytes → Bytes → Except TemplateError (Option Bytes)
  | output, [] => .ok (some output)
  | output, 123 :: 123 :: rest => expandRecipeTemplate data limit (output ++ [123]) rest
  | output, 123 :: rest =>
      match _h : (cut 125 rest).2 with
      | none => .error .unclosed
      | some after =>
          match recipePathString jsonPathValue data (cut 125 rest).1 with
          | .error err => .error (.placeholder (cut 125 rest).1 err)
          | .ok none => .ok none
          | .ok (some value) =>
              if limit < (output ++ value).length then .error .tooLarge
              else expandRecipeTemplate data limit (output ++ value) after
  | output, 125 :: 125 :: rest => expandRecipeTemplate data limit (output ++ [125]) rest
  | _, 125 :: _ => .error .unmatched
  | output, b :: rest => expandRecipeTemplate data limit (output ++ [b]) rest
termination_by _ template => template.length
decreasing_by
  all_goals simp_wf
  all_goals
    first
    | omega
    | have := length_lt_of_cut _h
      omega

/-! ### Attributes -/

/-- One attribute's source and optional conversion; an absent value is null, and an absent map
`none`. -/
structure RecipeAttribute where
  path : Bytes
  const : RecipeValue
  template : Bytes
  type : Bytes
  map : Option (List (Bytes × RecipeValue))
  default : RecipeValue
  hasPath : Bool
  hasConst : Bool
  hasTemplate : Bool
  hasDefault : Bool

def RecipeValue.isNull : RecipeValue → Bool
  | .null => true
  | _ => false

/-- Why an attribute is not mapped. -/
inductive MapError
  | notOneSource
  | path (text : Bytes)
  | template (err : TemplateError)
  | mapKey (text : Bytes)
  | convert (text : Bytes)
  deriving DecidableEq, Repr

def MapError.text (fmt : Formats) : MapError → Bytes
  | .notOneSource => bytes "must define exactly one of path, const, or template"
  | .path text => text
  | .template err => err.text fmt
  | .mapKey text => text
  | .convert text => text

def boolCount (values : List Bool) : ℕ := values.countP id

/-- The value that an attribute is taken from; `none` if the response does not have it. -/
def attributeSource (item : Bytes) (attr : RecipeAttribute) (limit : ℤ) :
    Except MapError (Option RecipeValue) :=
  let hasPath := attr.hasPath || attr.path ≠ []
  let hasConst := attr.hasConst || !attr.const.isNull
  if hasPath then (recipePathValue jsonPathValue item attr.path).mapError .path
  else if hasConst then .ok (some attr.const)
  else
    ((expandRecipeTemplate jsonPathValue item limit [] attr.template).mapError
      .template).map fun text => text.map .string

/-- The value that the map or the default puts in the place of another one. -/
def mappedValue (fmt : Formats) (attr : RecipeAttribute) (value : RecipeValue) :
    Except MapError RecipeValue :=
  match attr.map with
  | none => .ok value
  | some entries => do
      let key ← (recipeMapKey fmt value).mapError .mapKey
      match entries.lookup key with
      | some mapped => .ok mapped
      | none =>
          if attr.hasDefault || !attr.default.isNull then .ok attr.default
          else .ok value

/-- **The value of an attribute**, or `none` if it is left out. -/
def mapRecipeAttribute (fmt : Formats) (item : Bytes) (attr : RecipeAttribute) (limit : ℤ) :
    Except MapError (Option RecipeValue) :=
  let hasPath := attr.hasPath || attr.path ≠ []
  let hasConst := attr.hasConst || !attr.const.isNull
  let hasTemplate := attr.hasTemplate || attr.template ≠ []
  if boolCount [hasPath, hasConst, hasTemplate] ≠ 1 then .error .notOneSource
  else do
    match ← attributeSource jsonPathValue item attr limit with
    | none => .ok none
    | some value =>
        let value ← mappedValue fmt attr value
        let converted ← (convertRecipeAttribute fmt value attr.type).mapError .convert
        .ok (some converted)

/-! ### Dependencies -/

structure ServiceDependency where
  kind : Bytes
  name : Bytes
  deriving DecidableEq, Repr

/-- `gjson.Result.Array`, of a list, or the value itself. -/
def PathResult.items : PathResult → List PathResult
  | .json (.ok (.array items)) => items.map fun
      | .null => .null
      | .bool b => .bool b
      | .string s => .string s
      | .number text _ => .number text
      | value => .json (.ok value)
  | result => [result]

/-- The names that a path selects. -/
def selectedNames : List PathResult → Except Bytes (List Bytes)
  | [] => .ok []
  | .null :: rest => selectedNames rest
  | value :: rest => do
      let name ← (recipeGJSONString value).mapError
        (bytes "path must resolve to scalar names: " ++ ·)
      let names ← selectedNames rest
      .ok (if trimSpace name = [] then names else name :: names)

/-- The names of a dependency; an error is its text without the location. -/
def dependencyNames (definition : RecipeDependency) (body : Bytes) : Except Bytes (List Bytes) :=
  let hasPath := definition.hasPath || definition.path ≠ []
  let hasConst := definition.hasConst || definition.const.isSome
  if hasPath = hasConst then .error (bytes "must define exactly one of path or const")
  else if hasConst then
    match definition.const with
    | some (.string name) =>
        if trimSpace name = [] then .error (bytes "constant name must be a non-empty string")
        else .ok [name]
    | _ => .error (bytes "constant name must be a non-empty string")
  else if trimSpace definition.path = [] then .error (bytes "path is empty")
  else
    match jsonPathValue body definition.path with
    | .missing => .ok []
    | .null => .ok []
    | selected => selectedNames selected.items

/-- `addRecipeDependency`. -/
def addRecipeDependency (target : List ServiceDependency) (kind name : Bytes) :
    List ServiceDependency :=
  put (fun d => d.kind ++ 0 :: d.name) target ⟨kind, name⟩

/-- **The dependencies**, added to others. -/
def addRecipeDependencies (fmt : Formats) (body endpointName : Bytes) :
    ℕ → List ServiceDependency → List RecipeDependency → Except Bytes (List ServiceDependency)
  | _, target, [] => .ok target
  | i, target, definition :: rest => do
      let names ← (dependencyNames jsonPathValue definition body).mapError fun text =>
        bytes "endpoint " ++ fmt.quote endpointName ++ bytes " dependency[" ++
          bytes (toString i) ++ bytes "] " ++ text
      addRecipeDependencies fmt body endpointName (i + 1)
        (names.foldl (fun target name => addRecipeDependency target definition.kind name) target)
        rest

end Responses

/-! ### Definitions in a document -/

/-- The definition of an attribute: the keys that it has.  It may be an alias of another
definition. -/
structure AttributeNode where
  isAlias : Bool
  path : Option Bytes
  const : Option RecipeValue
  template : Option Bytes
  type : Option Bytes
  /-- Null is no map. -/
  map : Option (Option (List (Bytes × RecipeValue)))
  default : Option RecipeValue

/-- An attribute as it is decoded, once `markRecipePresence` has told which keys it has; what an
alias has is not told. -/
def markAttribute (node : AttributeNode) : RecipeAttribute where
  path := node.path.getD []
  const := node.const.getD .null
  template := node.template.getD []
  type := node.type.getD []
  map := node.map.join
  default := node.default.getD .null
  hasPath := !node.isAlias && node.path.isSome
  hasConst := !node.isAlias && node.const.isSome
  hasTemplate := !node.isAlias && node.template.isSome
  hasDefault := !node.isAlias && node.default.isSome

/-- The definition of a dependency: the keys that it has, where a constant may be null. -/
structure DependencyNode where
  kind : Option Bytes
  path : Option Bytes
  const : Option (Option RecipeConst)

/-- `markDependencyPresence`, of a dependency as it is decoded. -/
def markDependency (node : DependencyNode) : RecipeDependency where
  kind := node.kind.getD []
  path := node.path.getD []
  const := node.const.join
  hasPath := node.path.isSome
  hasConst := node.const.isSome

/-! ### The checks -/

section Checks

variable (fmt : Formats) (validateGJSONPath : Bytes → Option Bytes)

/-- The problem of a value that does not convert. -/
def convertIssue (value : RecipeValue) (type location : Bytes) : List RecipeIssue :=
  match convertRecipeAttribute fmt value type with
  | .error err => [⟨location, err⟩]
  | .ok _ => []

/-- The checks of an attribute; what does not depend on a response has to convert. -/
def attributeIssues (attr : RecipeAttribute) (location : Bytes) : List RecipeIssue :=
  let badType := attr.type ≠ [] ∧ validAttributeType attr.type = false
  let entries := sortedEntries (attr.map.getD [])
  issueIf (boolCount [attr.hasPath, attr.hasConst, attr.hasTemplate] ≠ 1) location
      (bytes "must define exactly one of path, const, or template") ++
    (if attr.hasPath then pathIssue validateGJSONPath attr.path (location ++ bytes ".path")
      else []) ++
    (if attr.hasTemplate then
      match templatePaths validateGJSONPath attr.template with
      | .error err => [⟨location ++ bytes ".template", err.text fmt⟩]
      | .ok _ => []
      else []) ++
    issueIf badType (location ++ bytes ".type")
      (bytes "must be string, number, bool, boolean, or list") ++
    issueIf (entries.any fun e => e.1.any fun b => b = 13 || b = 10) (location ++ bytes ".map")
      (bytes "keys must not contain line breaks") ++
    if badType then []
    else
      (if attr.hasConst && attr.map.isNone then
        convertIssue fmt attr.const attr.type (location ++ bytes ".const") else []) ++
      (entries.flatMap fun e =>
        convertIssue fmt e.2 attr.type (location ++ bytes ".map." ++ e.1)) ++
      if attr.hasDefault then
        convertIssue fmt attr.default attr.type (location ++ bytes ".default") else []

/-- The check of a field of an entity. -/
def fieldIssues (base : Bytes) (field : Bytes × Bytes) : List RecipeIssue :=
  if (field.1 = bytes "name" ∨ field.1 = bytes "external_id") ∧ trimSpace field.2 = [] then
    [⟨base ++ bytes "." ++ field.1, bytes "mapping is required"⟩]
  else if field.2 ≠ [] then pathIssue validateGJSONPath field.2 (base ++ bytes "." ++ field.1)
  else []

/-- **The checks of an entity.** -/
def validateRecipeEntity (entity : RecipeEntity RecipeAttribute) (base : Bytes) :
    List RecipeIssue :=
  issueIf (trimSpace entity.kind = []) (base ++ bytes ".kind") (bytes "is required") ++
    ([(bytes "name", entity.name), (bytes "external_id", entity.externalID),
      (bytes "hostname", entity.hostname), (bytes "ip", entity.ip), (bytes "mac", entity.mac),
      (bytes "aliases", entity.aliases)].flatMap (fieldIssues validateGJSONPath base)) ++
    (sortedEntries entity.attributes).flatMap fun e =>
      attributeIssues fmt validateGJSONPath e.2 (base ++ bytes ".attributes." ++ e.1)

/-- The checks of a dependency. -/
def dependencyIssues (dependency : RecipeDependency) (location : Bytes) : List RecipeIssue :=
  issueIf (dependency.kind ∉ [bytes "host", bytes "network", bytes "storage",
      bytes "upstream_service"]) (location ++ bytes ".kind")
      (bytes "must be host, network, storage, or upstream_service") ++
    issueIf (dependency.hasPath = dependency.hasConst) location
      (bytes "must define exactly one of path or const") ++
    (if dependency.hasPath then
      pathIssue validateGJSONPath dependency.path (location ++ bytes ".path") else []) ++
    if dependency.hasConst then
      match dependency.const with
      | some (.string value) =>
          issueIf (trimSpace value = []) (location ++ bytes ".const")
            (bytes "must be a non-empty string")
      | _ => [⟨location ++ bytes ".const", bytes "must be a non-empty string"⟩]
    else []

/-- **The checks of dependencies**, from the `i`-th one on. -/
def validateDependencies (base : Bytes) : ℕ → List RecipeDependency → List RecipeIssue
  | _, [] => []
  | i, dependency :: rest =>
      dependencyIssues validateGJSONPath dependency
        (base ++ bytes "[" ++ bytes (toString i) ++ bytes "]") ++
      validateDependencies base (i + 1) rest

/-- The part of `validateRecipe` that checks what is mapped, from the `i`-th endpoint on. -/
def endpointMappingIssues : ℕ → List (RecipeEndpoint RecipeAttribute) → List RecipeIssue
  | _, [] => []
  | i, endpoint :: rest =>
      let base := bytes "endpoints[" ++ bytes (toString i) ++ bytes "]"
      validateRecipeEntity fmt validateGJSONPath endpoint.entity (base ++ bytes ".entity") ++
        validateDependencies validateGJSONPath (base ++ bytes ".dependencies") 0
          endpoint.dependencies ++
        endpointMappingIssues (i + 1) rest

/-- **A recipe that is accepted**, as far as it tells what is mapped: it is decoded from a document,
and its entities and dependencies have no issues. -/
structure AcceptedMapping (recipe : RecipeSpec RecipeAttribute) : Prop where
  attributes : ∀ endpoint ∈ recipe.endpoints, ∀ e ∈ endpoint.entity.attributes,
    ∃ node, e.2 = markAttribute node
  dependencies : ∀ d ∈ recipe.dependencies ++ recipe.endpoints.flatMap (·.dependencies),
    ∃ node, d = markDependency node
  valid : endpointMappingIssues fmt validateGJSONPath 0 recipe.endpoints ++
    validateDependencies validateGJSONPath (bytes "dependencies") 0 recipe.dependencies = []

end Checks

end WiseLabz.Recipe
