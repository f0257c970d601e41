import Scaffold.Definition.Field

/-!
# Fields given by their parts

A field may be given as an object with the name of its type, the parameters and the validation
tokens. Every part that is missing, of the wrong kind or not known is one violation; only when the
parts are sound is it asked whether the parameters suit the type.
-/

namespace Scaffold.Field
set_option autoImplicit false

/-- One violation for every member that is not expected. -/
def unexpected (expected : List String) (members : Json.Members) : Nat :=
  (members.filter fun m => !expected.contains m.1).length

/-- A text that must be there and must not be empty. -/
def requiredText (members : Json.Members) (name : String) : Except Nat String :=
  match (members.get? name).bind Json.asText? with
  | some text => if text.isEmpty then .error 1 else .ok text
  | none => .error 1

/-- A list of texts; each item that is none is one violation. -/
def textList : Json → Except Nat (List String)
  | .array items =>
    match items.mapM Json.asText? with
    | some texts => .ok texts
    | none => .error (items.filter fun item => item.asText?.isNone).length
  | _ => .error 1

/-- A whole number of at least `least`. -/
def wholeFrom (members : Json.Members) (name : String) (default least : Nat) : Except Nat Nat :=
  match members.get? name with
  | none => .ok default
  | some value =>
    match value.asWhole? with
    | some whole => if whole < least then .error 1 else .ok whole.toNat
    | none => .error 1

/-- How many violations a part has. -/
def violations {α : Type} : Except Nat α → Nat
  | .ok _ => 0
  | .error count => count

/-- The parameters of the kind that the member `kind` names. -/
def paramsOfMembers (members : Json.Members) : Except Nat TypeParams :=
  match members.get? "kind" with
  | some (.string "foreign") =>
    let table := requiredText members "table"
    match table, unexpected ["kind", "table"] members with
    | .ok table, 0 => .ok (.foreign table)
    | table, extra => .error (violations table + extra)
  | some (.string "enum") =>
    let values := ((members.get? "values").map textList).getD (.error 1)
    match values, unexpected ["kind", "values"] members with
    | .ok [], extra => .error (1 + extra)
    | .ok values, 0 => .ok (.enumeration values)
    | values, extra => .error (violations values + extra)
  | some (.string "decimal") =>
    let precision := wholeFrom members "precision" 8 1
    let scale := wholeFrom members "scale" 2 0
    match precision, scale, unexpected ["kind", "precision", "scale"] members with
    | .ok precision, .ok scale, 0 => .ok (.decimal precision scale)
    | precision, scale, extra => .error (violations precision + violations scale + extra)
  | some (.string "file") =>
    let disk : Except Nat (Option String) :=
      match members.get? "disk" with
      | none | some .null => .ok none
      | some (.string disk) => .ok (some disk)
      | some _ => .error 1
    match disk, unexpected ["kind", "disk"] members with
    | .ok disk, 0 => .ok (.file disk)
    | disk, extra => .error (violations disk + extra)
  | _ => .error 1

def paramsOfPart : Option Json → Except Nat (Option TypeParams)
  | none | some .null => .ok none
  | some (.object members) => (paramsOfMembers members).map some
  | some _ => .error 1

/-- Whether the parameters are those that the type needs; a type that needs none takes any. -/
def suits (typeName : String) (params : Option TypeParams) : Bool :=
  match FieldType.ofName? typeName, params with
  | some .foreign, some (.foreign _) => true
  | some .enumeration, some (.enumeration _) => true
  | some .decimal, some (.decimal _ _) => true
  | some .foreign, _ | some .enumeration, _ | some .decimal, _ => false
  | _, _ => true

/-- The field of an object, or the number of violations in it. -/
def ofParts (members : Json.Members) : Except Nat Field :=
  let typeName := requiredText members "base_type"
  let params := paramsOfPart (members.get? "type_params")
  let validations := ((members.get? "validations").map textList).getD (.ok [])
  match typeName, params, validations,
      unexpected ["base_type", "type_params", "validations"] members with
  | .ok typeName, .ok params, .ok validations, 0 =>
    if suits typeName params then .ok ⟨typeName, params, validations⟩ else .error 1
  | typeName, params, validations, extra =>
    .error (violations typeName + violations params + violations validations + extra)

end Scaffold.Field
