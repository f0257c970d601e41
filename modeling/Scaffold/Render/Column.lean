import Scaffold.Definition.Field
import Scaffold.Php

/-!
# Columns

The statements that add a field's column to a table: the column itself with its modifiers, then
what takes a statement of its own, a foreign key on a column without the usual name and an index.
-/

namespace Scaffold.Render
set_option autoImplicit false

open Text (NumeralError)

/-- The method that adds a column of a type; types that are not known become strings. -/
def columnMethod : Option FieldType → String
  | some .text => "text"
  | some .longText => "longText"
  | some .integer => "integer"
  | some .boolean => "boolean"
  | some .date => "date"
  | some .datetime => "dateTime"
  | some .timestamp => "timestamp"
  | some .json | some .files => "json"
  | some .float => "float"
  | some .uuid => "uuid"
  | _ => "string"

/-- Whether a column has the name by which a foreign key is recognised. -/
def isKeyName (name : String) : Bool := Text.endsWith "_id" name

/-- The column's statement before its modifiers, what follows them, and further statements. -/
def columnParts (name : String) (field : Field) :
    Except NumeralError (String × String × List String) :=
  match field.type?, field.params with
  | some .foreign, _ =>
    let table := field.foreignTable?.getD ""
    if isKeyName name then .ok (s!"$table->foreignId('{name}')", s!"->constrained('{table}')", [])
    else .ok (s!"$table->unsignedBigInteger('{name}')", "",
      [s!"$table->foreign('{name}')->references('id')->on('{table}');"])
  | some .string, _ =>
    field.maxLength.map fun length =>
      match length with
      | some length => (s!"$table->string('{name}', {length})", "", [])
      | none => (s!"$table->string('{name}')", "", [])
  | some .enumeration, _ =>
    let values := Php.array field.enumValues
    .ok (s!"$table->enum('{name}', {values})", "", [])
  | some .decimal, some (.decimal precision scale) =>
    .ok (s!"$table->decimal('{name}', {precision}, {scale})", "", [])
  | type, _ =>
    let method := columnMethod type
    .ok (s!"$table->{method}('{name}')", "", [])

/-- The modifiers of a column, in the order in which they are chained. -/
def columnModifiers (field : Field) : List String :=
  (if field.isNullable then ["->nullable()"] else []) ++
  (match field.default? with
    | some value =>
      if value == "now" then ["->useCurrent()"] else ["->default(" ++ Php.scalar value ++ ")"]
    | none => []) ++
  (if field.isUnique then ["->unique()"] else [])

/-- The statements for one field. -/
def columnLines (name : String) (field : Field) : Except NumeralError (List String) :=
  (columnParts name field).map fun (column, tail, extra) =>
    (column ++ String.join (columnModifiers field) ++ tail ++ ";") :: extra ++
      if field.hasIndex then [s!"$table->index('{name}');"] else []

end Scaffold.Render
