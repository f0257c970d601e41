import Scaffold.Schema
import Scaffold.Php
import Scaffold.Text.LetterCase

/-!
# Sample values

The expression by which a factory makes up a value for a field: for some names a fitting one, else
one of the field's type.
-/

namespace Scaffold.Render
set_option autoImplicit false

open Text (NumeralError)

/-- Values for fields that go by their name. -/
def sampleOfName? (name : String) : Option String :=
  match name with
  | "email" => some "fake()->unique()->safeEmail()"
  | "name" => some "fake()->name()"
  | "title" => some "fake()->sentence(3)"
  | "description" | "bio" => some "fake()->paragraph()"
  | "content" => some "fake()->paragraphs(3, true)"
  | "slug" => some "fake()->unique()->slug()"
  | "password" => some "bcrypt('password')"
  | "phone" => some "fake()->phoneNumber()"
  | "address" => some "fake()->address()"
  | "url" | "website" => some "fake()->url()"
  | _ => none

/-- A text of at most the field's length. -/
def sampleText (field : Field) : Except NumeralError String :=
  if field.hasValidation "email" then .ok "fake()->unique()->safeEmail()"
  else field.maxLength.map fun length =>
    match length with
    | some length =>
      if length ≤ 50 then "fake()->word()"
      else if length ≤ 255 then "fake()->sentence()"
      else "fake()->text(200)"
    | none => "fake()->text(200)"

/-- The class of a table's rows. -/
def modelOfTable (s : Schema) (table : String) : String :=
  ((s.entityOfTable? table).map (·.className)).getD (Naming.modelOfTable table)

/-- The expression for a field of a type other than a foreign key. -/
def sampleOfType (field : Field) : Except NumeralError String :=
  match field.type? with
  | some .string => sampleText field
  | some .text | some .longText => .ok "fake()->paragraph()"
  | some .integer => .ok "fake()->numberBetween(1, 1000)"
  | some .decimal | some .float => .ok "fake()->randomFloat(2, 0, 999.99)"
  | some .boolean => .ok "fake()->boolean()"
  | some .date => .ok "fake()->date()"
  | some .datetime | some .timestamp => .ok "fake()->dateTime()"
  | some .json => .ok "['key' => fake()->word()]"
  | some .enumeration => .ok ("fake()->randomElement(" ++ Php.array field.enumValues ++ ")")
  | some .uuid => .ok "fake()->uuid()"
  | some .file | some .files => .ok "null"
  | some .foreign | none => .ok "fake()->word()"

/-- The expression for one field. -/
def sample (s : Schema) (name : String) (field : Field) : Except NumeralError String :=
  match field.type? with
  | some .foreign =>
    .ok ("\\App\\Models\\" ++ modelOfTable s (field.foreignTable?.getD "users") ++ "::factory()")
  | _ =>
    match sampleOfName? (Text.lower name) with
    | some text => .ok text
    | none => sampleOfType field

end Scaffold.Render
