import Scaffold.Json.Reader
import Scaffold.Text.Utf8

/-!
# Documents

A file that holds one JSON object as UTF-8.
-/

namespace Scaffold
set_option autoImplicit false

namespace Text

/-- Every line end as a line feed. -/
def withLineFeeds : List Char → List Char
  | '\r' :: '\n' :: rest => '\n' :: withLineFeeds rest
  | '\r' :: rest => '\n' :: withLineFeeds rest
  | c :: rest => c :: withLineFeeds rest
  | [] => []

end Text

namespace Json

/-- Why bytes hold no JSON object. -/
inductive DocumentError where
  | undecodable (error : Text.Utf8.DecodeError)
  | malformed (text : String) (fault : Fault) (offset : Nat)
  | numeral (error : Text.NumeralError)
  | notAnObject (kind : String)
  deriving DecidableEq, Repr

/-- The members of the object that a text spells. -/
def objectOfText (text : String) : Except DocumentError Members :=
  match read text with
  | .ok (.object members) => .ok members
  | .ok value => .error (.notAnObject value.kind)
  | .error (.stopped fault offset) => .error (.malformed text fault offset)
  | .error (.numeral error) => .error (.numeral error)

/-- The members of the object that bytes spell. -/
def objectOfBytes (bytes : ByteArray) : Except DocumentError Members :=
  match Text.Utf8.decode bytes with
  | .ok text => objectOfText text
  | .error error => .error (.undecodable error)

/-- The same of a file in which a line may end in any way. -/
def objectOfFile (bytes : ByteArray) : Except DocumentError Members :=
  match Text.Utf8.decode bytes with
  | .ok text => objectOfText (String.ofList (Text.withLineFeeds text.toList))
  | .error error => .error (.undecodable error)

/-- What is wrong; `wanted` begins the sentence about a value that is no object. -/
def DocumentError.message (wanted : String) : DocumentError → String
  | undecodable error => error.message
  | malformed text fault offset => (ReadError.stopped fault offset).message text
  | numeral error => error.message
  | notAnObject kind => wanted ++ " an object, got " ++ kind

end Json
end Scaffold
