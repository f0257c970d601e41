import Scaffold.Json.Lenient
import Scaffold.Text.Numeral

/-!
# Field definitions

A field is defined in one line: its type, with parameters after a colon, and then validation
tokens between bars, as in `string|required|max:255`. `Field.parse` reads a definition and
`Field.definition` writes it. A type that is not known is kept, so that later schemas still load.
-/

namespace Scaffold
set_option autoImplicit false

open Text (NumeralError)

/-- The types that fields may have. -/
inductive FieldType where
  | string
  | text
  | longText
  | integer
  | boolean
  | date
  | datetime
  | timestamp
  | json
  | float
  | uuid
  | enumeration
  | decimal
  | foreign
  | file
  | files
  deriving DecidableEq, Repr

namespace FieldType

def all : List FieldType :=
  [string, text, longText, integer, boolean, date, datetime, timestamp, json, float, uuid,
   enumeration, decimal, foreign, file, files]

def name : FieldType → String
  | string => "string"
  | text => "text"
  | longText => "longText"
  | integer => "integer"
  | boolean => "boolean"
  | date => "date"
  | datetime => "datetime"
  | timestamp => "timestamp"
  | json => "json"
  | float => "float"
  | uuid => "uuid"
  | enumeration => "enum"
  | decimal => "decimal"
  | foreign => "foreign"
  | file => "file"
  | files => "files"

def ofName? (text : String) : Option FieldType := all.find? fun t => t.name == text

end FieldType

/-- What stands after the colon of a type. -/
inductive TypeParams where
  | foreign (table : String)
  | enumeration (values : List String)
  | decimal (precision scale : Nat)
  | file (disk : Option String)
  deriving DecidableEq, Repr

/-- One field: the name of its type, the type's parameters and the validation tokens in order. -/
structure Field where
  typeName : String
  params : Option TypeParams
  validations : List String
  deriving DecidableEq, Repr

namespace Field

/-- What is wrong with a segment of a definition. -/
inductive Fault where
  | empty
  | noType
  | noTable
  | noValues
  | emptyValue
  | decimalCount (count : Nat)
  | decimalDigits
  | decimalPrecision
  deriving DecidableEq, Repr

def Fault.reason : Fault → String
  | empty => "is empty"
  | noType => "has no base type"
  | noTable => "needs a target table (foreign:<table>)"
  | noValues => "needs at least one value (enum:<a>,<b>)"
  | emptyValue => "needs at least one non-empty value"
  | decimalCount count => "needs exactly two values (precision,scale), got " ++ toString count
  | decimalDigits => "precision and scale must be integers"
  | decimalPrecision => "precision must be at least 1"

/-- A definition that cannot be read, with the segment at fault. -/
structure Malformed where
  definition : String
  segment : String
  fault : Fault
  deriving DecidableEq, Repr

def Malformed.message (e : Malformed) : String :=
  "Malformed field definition '" ++ e.definition ++ "': segment '" ++ e.segment ++ "' " ++
    e.fault.reason

/-- Why a definition gives no field: it is malformed, or digits in it spell no number. -/
inductive ParseError where
  | malformed (e : Malformed)
  | numeral (e : NumeralError)
  deriving DecidableEq, Repr

/-- The number of a text of digits. -/
def readDigits (text : String) : Except NumeralError Nat := (Text.readInteger text).map Int.toNat

/-- The type a field has, if it is a known one. -/
def type? (field : Field) : Option FieldType := FieldType.ofName? field.typeName

/-- Precision and scale after `decimal:`. -/
def parseDecimal (definition params : String) : Except ParseError TypeParams :=
  let fail (fault : Fault) : Except ParseError TypeParams :=
    .error (.malformed ⟨definition, "decimal:" ++ params, fault⟩)
  match (Text.split ',' params).map Text.strip with
  | [precision, scale] =>
    if !(Text.isDigits precision && Text.isDigits scale) then fail .decimalDigits
    else match readDigits precision, readDigits scale with
      | .error e, _ => .error (.numeral e)
      | _, .error e => .error (.numeral e)
      | .ok precision, .ok scale =>
        if precision < 1 then fail .decimalPrecision else .ok (.decimal precision scale)
  | parts => fail (.decimalCount parts.length)

/-- The values after `enum:`. -/
def parseValues (definition params : String) : Except ParseError TypeParams :=
  let values := (Text.split ',' params).map Text.strip
  if values.any (·.isEmpty) then
    .error (.malformed ⟨definition, "enum:" ++ params, .emptyValue⟩)
  else .ok (.enumeration values)

/-- The parameters of a type, whose segment is `segment`, from the text after its colon. -/
def parseParams (definition segment typeName : String) (params : Option String) :
    Except ParseError (Option TypeParams) :=
  let fail (fault : Fault) : Except ParseError (Option TypeParams) :=
    .error (.malformed ⟨definition, segment, fault⟩)
  let text := Text.strip (params.getD "")
  match FieldType.ofName? typeName with
  | some .foreign => if text.isEmpty then fail .noTable else .ok (some (.foreign text))
  | some .enumeration =>
    match params with
    | none => fail .noValues
    | some params => (parseValues definition params).map some
  | some .decimal =>
    match params with
    | none => .ok (some (.decimal 8 2))
    | some params => (parseDecimal definition params).map some
  | some .file | some .files => .ok (some (.file (if text.isEmpty then none else some text)))
  | _ => .ok none

/-- The field that a definition describes. -/
def parse (definition : String) : Except ParseError Field :=
  if Text.isBlankText definition then .error (.malformed ⟨definition, definition, .empty⟩)
  else match Text.split '|' definition with
    | [] => .error (.malformed ⟨definition, definition, .empty⟩)
    | first :: tokens =>
      let segment := Text.strip first
      if segment.isEmpty then .error (.malformed ⟨definition, first, .noType⟩)
      else
        let (typeName, params) :=
          match Text.cut? ':' segment with
          | some (name, params) => (Text.strip name, some params)
          | none => (segment, none)
        if typeName.isEmpty then .error (.malformed ⟨definition, segment, .noType⟩)
        else (parseParams definition segment typeName params).map fun params =>
          ⟨typeName, params, tokens.filter (!·.isEmpty)⟩

/-- The field of a value in the schema, which has to be a text. -/
def ofJson : Json → Except ParseError Field
  | .string definition => parse definition
  | value => .error (.malformed ⟨value.plain, value.plain, .empty⟩)

/-- The type of a field with its parameters, as a definition begins. -/
def typeSegment (field : Field) : String :=
  match field.params with
  | some (.foreign table) => field.typeName ++ ":" ++ table
  | some (.enumeration values) => field.typeName ++ ":" ++ Text.join "," values
  | some (.decimal precision scale) =>
    field.typeName ++ ":" ++ toString precision ++ "," ++ toString scale
  | some (.file (some disk)) =>
    if disk.isEmpty then field.typeName else field.typeName ++ ":" ++ disk
  | _ => field.typeName

/-- The definition of a field. -/
def definition (field : Field) : String := Text.join "|" (field.typeSegment :: field.validations)

def isFile (field : Field) : Bool :=
  match field.type? with
  | some .file | some .files => true
  | _ => false

def isMultiple (field : Field) : Bool := field.type? = some .files

/-- Whether a token stands among the validations. -/
def hasValidation (field : Field) (token : String) : Bool := field.validations.contains token

/-- The value of the first token of the form `rule:value`. -/
def validation? (field : Field) (rule : String) : Option String :=
  field.validations.findSome? fun token => Text.dropHead? (rule ++ ":") token

def isUnique (field : Field) : Bool := field.hasValidation "unique"

def isNullable (field : Field) : Bool := field.hasValidation "nullable"

def isRequired (field : Field) : Bool := field.hasValidation "required"

def hasIndex (field : Field) : Bool := field.hasValidation "index"

def default? (field : Field) : Option String := field.validation? "default"

/-- The greatest length, if one is given in digits. -/
def maxLength (field : Field) : Except NumeralError (Option Nat) :=
  match field.validation? "max" with
  | some text => if Text.isDigits text then (readDigits text).map some else .ok none
  | none => .ok none

/-- The table that a foreign key refers to. -/
def foreignTable? (field : Field) : Option String :=
  match field.params with
  | some (.foreign table) => some table
  | _ => none

/-- The values that an enumeration allows. -/
def enumValues (field : Field) : List String :=
  match field.params with
  | some (.enumeration values) => values
  | _ => []

/-- The disk that keeps the files of a field. -/
def disk? (field : Field) : Option String :=
  match field.params with
  | some (.file disk) => disk
  | _ => none

/-- How a field shows in a report. -/
def shown (field : Field) : String :=
  "<FieldSpec " ++ field.typeName ++ " " ++
    (Json.array (field.validations.map .string)).shown ++ ">"

end Field
end Scaffold
