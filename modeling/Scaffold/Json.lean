import Scaffold.Decimal.Shortest
import Scaffold.Text
import Scaffold.Text.Quoted

/-!
# JSON values

The values of a JSON document. Objects keep the order of their members; whole numbers are
unbounded and apart from floating-point numbers. `shown` is the text of a value inside a message,
`plain` the same with the quotation marks of an outer string left out.
-/

namespace Scaffold
set_option autoImplicit false

open Decimal (Binary64)

inductive Json where
  | null
  | bool (value : Bool)
  | int (value : Int)
  | float (value : Binary64)
  | string (value : String)
  | array (items : List Json)
  | object (members : List (String × Json))
  deriving Repr, Inhabited

namespace Json

/-- The members of an object, in order. -/
abbrev Members := List (String × Json)

/-- The value of a member. -/
def Members.get? (members : Members) (key : String) : Option Json :=
  (members.find? fun m => m.1 == key).map (·.2)

/-- Sets a member: a new one comes last, one that is there keeps its place. -/
def Members.put (members : Members) (key : String) (value : Json) : Members :=
  if members.any (·.1 == key) then members.map fun m => if m.1 == key then (key, value) else m
  else members ++ [(key, value)]

/-- The kind of a value as messages name it. -/
def kind : Json → String
  | null => "NoneType"
  | bool _ => "bool"
  | int _ => "int"
  | float _ => "float"
  | string _ => "str"
  | array _ => "list"
  | object _ => "dict"

/-- False for null, false, zero and whatever is empty. -/
def isTruthy : Json → Bool
  | null => false
  | bool value => value
  | int value => value != 0
  | float value => !value.isZero
  | string value => !value.isEmpty
  | array items => !items.isEmpty
  | object members => !members.isEmpty

/-- The value `true` and no other. -/
def isTrue : Json → Bool
  | bool value => value
  | _ => false

mutual

/-- The text of a value inside a message. -/
def shown : Json → String
  | null => "None"
  | bool value => if value then "True" else "False"
  | int value => toString value
  | float value => value.written
  | string value => Text.quoted value
  | array items => "[" ++ Text.join ", " (shownItems items) ++ "]"
  | object members => "\x7b" ++ Text.join ", " (shownMembers members) ++ "\x7d"

def shownItems : List Json → List String
  | [] => []
  | item :: items => shown item :: shownItems items

def shownMembers : List (String × Json) → List String
  | [] => []
  | (key, value) :: members => (Text.quoted key ++ ": " ++ shown value) :: shownMembers members

end

/-- The text of a value; of a string, itself. -/
def plain : Json → String
  | string value => value
  | value => shown value

end Json
end Scaffold
