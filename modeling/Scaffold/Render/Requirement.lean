import Scaffold.Definition.Field
import Scaffold.Php

/-!
# Requirements on request data

The tokens by which a request's value for a field is checked: those of the field's definition,
and one that its type implies unless a token of that name is there already.
-/

namespace Scaffold.Render
set_option autoImplicit false

/-- What a token of a definition becomes: a hint on storage is dropped, uniqueness names table and
column, and an update does not insist on a value. -/
def requirement? (table name : String) (forUpdate : Bool) (token : String) : Option String :=
  if token == "index" || Text.startsWith "default:" token then none
  else if token == "unique" then some s!"unique:{table},{name}"
  else if token == "required" && forUpdate then some "sometimes"
  else some token

/-- The token that a type implies. -/
def impliedRequirement? (field : Field) : Option String :=
  match field.type? with
  | some .enumeration => some ("in:" ++ Text.join "," field.enumValues)
  | some .foreign => some ("exists:" ++ field.foreignTable?.getD "" ++ ",id")
  | some .string | some .text | some .longText => some "string"
  | some .integer => some "integer"
  | some .boolean => some "boolean"
  | some .date | some .datetime | some .timestamp => some "date"
  | some .json => some "array"
  | some .float | some .decimal => some "numeric"
  | some .uuid => some "uuid"
  | _ => none

/-- The name of a token, without its parameters. -/
def requirementName (token : String) : String := ((Text.cut? ':' token).map (·.1)).getD token

/-- The tokens for one field. -/
def requirements (table name : String) (field : Field) (forUpdate : Bool) : List String :=
  let tokens := field.validations.filterMap (requirement? table name forUpdate)
  match impliedRequirement? field with
  | some implied =>
    if (tokens.map requirementName).contains (requirementName implied) then tokens
    else tokens ++ [implied]
  | none => tokens

/-- The PHP expression of tokens. Where `ignored` names the variable of a row, uniqueness comes
last and does not count that row. -/
def requirementExpression (tokens : List String) (ignored : Option String) : String :=
  let isUnique (token : String) : Bool := Text.startsWith "unique:" token
  match ignored, tokens.filter isUnique with
  | some row, unique :: _ =>
    let text := Text.join "|" (tokens.filter (!isUnique ·) ++ [unique ++ ","])
    Php.literal text ++ s!" . ${row}->id"
  | _, _ => Php.literal (Text.join "|" tokens)

end Scaffold.Render
