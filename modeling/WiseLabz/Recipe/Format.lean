/-
**Recipes.**

A recipe says which pages of a service are fetched and how their items become entities.  It is
checked when it is saved.

Main definitions:

* `Recipe.RecipePagination`, `Recipe.RecipeEndpoint`, `Recipe.RecipeSpec` — a recipe;
* `Recipe.RecipeIssue`, `Recipe.issueIf` — a problem that a check finds.
-/

import WiseLabz.Lib.JsonText
import WiseLabz.Lib.Table

set_option relaxedAutoImplicit false
set_option autoImplicit false

namespace WiseLabz.Recipe

open Lib

/-! ### Data -/

/-- The largest value of a machine integer. -/
def maxInt : ℤ := 2 ^ 63 - 1

/-- A machine integer. -/
structure GoInt where
  val : ℤ
  lower : -2 ^ 63 ≤ val
  upper : val ≤ maxInt
  deriving DecidableEq, Repr

/-- How a request is authenticated. -/
inductive AuthMode
  | none | header | basic | query
  | other (raw : Bytes)
  deriving DecidableEq, Repr

structure RecipeAuth where
  mode : AuthMode
  name : Bytes
  tokenPrefix : Bytes
  deriving DecidableEq, Repr

/-- How an endpoint asks for its next page. -/
inductive PaginationType
  | page | offset | cursor | nextLink
  | other (raw : Bytes)
  deriving DecidableEq, Repr

structure RecipePagination where
  type : PaginationType
  param : Bytes
  sizeParam : Bytes
  size : GoInt
  start : GoInt
  cursorPath : Bytes
  nextPath : Bytes
  linkHeader : Bool
  hasParam : Bool
  hasSizeParam : Bool
  hasSize : Bool
  hasStart : Bool
  deriving DecidableEq, Repr

/-- A constant of a recipe, as far as a name can be made of it. -/
inductive RecipeConst
  | string (s : Bytes)
  | other
  deriving DecidableEq, Repr

/-- A dependency, named by a constant or by a path into the response. -/
structure RecipeDependency where
  kind : Bytes
  path : Bytes
  const : Option RecipeConst
  hasPath : Bool
  hasConst : Bool
  deriving DecidableEq, Repr

/-- The paths of an entity's fields; the definition of an attribute is of an arbitrary type. -/
structure RecipeEntity (A : Type) where
  kind : Bytes
  name : Bytes
  externalID : Bytes
  hostname : Bytes
  ip : Bytes
  mac : Bytes
  aliases : Bytes
  attributes : List (Bytes × A)

/-- One request and the mapping of its response.  Its method, its headers and its body are the same
on every page, so they are left to the connection. -/
structure RecipeEndpoint (A : Type) where
  name : Bytes
  path : Bytes
  query : List (Bytes × Bytes)
  items : Bytes
  pagination : Option RecipePagination
  entity : RecipeEntity A
  dependencies : List RecipeDependency

structure RecipeSpec (A : Type) where
  auth : RecipeAuth
  endpoints : List (RecipeEndpoint A)
  dependencies : List RecipeDependency

/-- A problem of a recipe, and where it is. -/
structure RecipeIssue where
  location : Bytes
  message : Bytes
  deriving DecidableEq, Repr

/-! ### The checks of a recipe -/

/-- The problem if a condition holds. -/
def issueIf (condition : Bool) (location message : Bytes) : List RecipeIssue :=
  if condition then [⟨location, message⟩] else []

theorem issueIf_eq_nil {condition : Bool} {location message : Bytes} :
    issueIf condition location message = [] ↔ condition = false := by
  cases condition <;> simp [issueIf]

/-- The check of a path into a response; an error is its text. -/
def pathIssue (validateGJSONPath : Bytes → Option Bytes) (path location : Bytes) :
    List RecipeIssue :=
  match validateGJSONPath path with
  | some message => [⟨location, message⟩]
  | none => []

end WiseLabz.Recipe
