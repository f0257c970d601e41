import Scaffold.Json
import Scaffold.Text.Blank
import Scaffold.Text.LetterCase

/-!
# Query scopes

A scope is `where:field,value`, `orderBy:field` with an optional direction, or `whereNull:field`.
Any other form is kept with its source and reported as not supported.
-/

namespace Scaffold
set_option autoImplicit false

inductive Direction where
  | ascending
  | descending
  deriving DecidableEq, Repr

def Direction.name : Direction → String
  | ascending => "asc"
  | descending => "desc"

/-- The direction that a word names, in capitals or not. -/
def Direction.ofWord? (word : String) : Option Direction :=
  let small := Text.lower word
  if small == "asc" then some ascending else if small == "desc" then some descending else none

/-- The forms of scope that are rendered. -/
inductive ScopeForm where
  | equals (field value : String)
  | order (field : String) (direction : Direction)
  | isNull (field : String)
  deriving DecidableEq, Repr

namespace ScopeForm

/-- The query method of a form. -/
def method : ScopeForm → String
  | equals .. => "where"
  | order .. => "orderBy"
  | isNull _ => "whereNull"

def field : ScopeForm → String
  | equals field _ | order field _ | isNull field => field

def argument? : ScopeForm → Option String
  | equals _ value => some value
  | order _ direction => some direction.name
  | isNull _ => none

/-- The form of a definition `method:params`. -/
def parse? (definition : String) : Option ScopeForm := do
  let (method, paramText) ← Text.cut? ':' definition
  match (Text.split ',' paramText).map Text.strip with
  | [] => none
  | field :: params =>
    if field.isEmpty then none
    else if method == "where" && !params.isEmpty then some (equals field (Text.join "," params))
    else if method == "orderBy" then
      match params.head?.filter (!·.isEmpty) with
      | none => some (order field .ascending)
      | some word => (Direction.ofWord? word).map (order field)
    else if method == "whereNull" then some (isNull field)
    else none

end ScopeForm

/-- A scope: its name, the form it has if it is supported, and what the schema says. -/
structure Scope where
  name : String
  form : Option ScopeForm
  source : String
  deriving DecidableEq, Repr

namespace Scope

/-- The scope of a value in the schema. -/
def ofJson (name : String) : Json → Scope
  | .string definition => ⟨name, ScopeForm.parse? definition, definition⟩
  | value => ⟨name, none, value.shown⟩

def isSupported (scope : Scope) : Bool := scope.form.isSome

end Scope
end Scaffold
