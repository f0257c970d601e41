import Scaffold.Interruption
import Scaffold.Schema.Build

/-!
# Schema files

Reading a schema from a file of a disk.
-/

namespace Scaffold
set_option autoImplicit false

namespace Schema

/-- Why a file gives no schema. The first two tell of the file's place and content; the others stop
the work that needs the schema. -/
inductive LoadError where
  | notFound (path : String)
  | invalid (path : String) (error : Json.DocumentError)
  | interrupted (cause : Interruption)
  | build (error : BuildError)
  deriving DecidableEq, Repr

/-- The members of the document in a file. -/
def readFile (disk : Disk) (path : Path) : Except LoadError Json.Members :=
  match disk.status path with
  | .error e => .error (.interrupted (.disk e))
  | .ok (some (.file content)) =>
    match Json.objectOfFile content with
    | .ok members => .ok members
    | .error (.numeral e) => .error (.interrupted (.numeral e))
    | .error e => .error (.invalid path.text e)
  | .ok _ => .error (.notFound path.text)

/-- The schema in a file. -/
def load (disk : Disk) (path : Path) : Except LoadError Schema := do
  (build (← readFile disk path)).mapError .build

/-- What is wrong with the content of a file. -/
def diagnostic (error : Json.DocumentError) : String := error.message "top-level value must be"

def LoadError.message : LoadError → String
  | notFound path => "Schema file not found: " ++ path
  | invalid path error => "Invalid JSON in schema " ++ path ++ ": " ++ diagnostic error
  | interrupted cause => cause.message
  | build error => error.message

end Schema
end Scaffold
