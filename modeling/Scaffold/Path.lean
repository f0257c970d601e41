import Scaffold.Text

/-!
# Paths

A path as it is written: where it starts, and the names between its slashes. Empty names and
single points are left out; double points stay, because they have a meaning only on a disk.
-/

namespace Scaffold
set_option autoImplicit false

/-- A path: the slashes it starts with, none for a path that starts where the program runs, and
the names. -/
structure Path where
  start : String
  names : List String
  deriving DecidableEq, Repr, Inhabited

namespace Path

/-- The slashes at the start that count: exactly two stay two, more are one. -/
def startOf : List Char → String
  | ['/', '/'] => "//"
  | '/' :: '/' :: c :: _ => if c = '/' then "/" else "//"
  | '/' :: _ => "/"
  | _ => ""

/-- The path that a text spells. -/
def ofText (text : String) : Path :=
  ⟨startOf text.toList, (Text.split '/' text).filter fun name => !name.isEmpty && name != "."⟩

/-- The text of a path; of the one without names and slashes, a point. -/
def text (path : Path) : String :=
  if path.start.isEmpty && path.names.isEmpty then "." else path.start ++ Text.join "/" path.names

def isAbsolute (path : Path) : Bool := !path.start.isEmpty

/-- The path with further names. -/
def extend (path : Path) (names : List String) : Path := ⟨path.start, path.names ++ names⟩

/-- Without the last name. -/
def parent (path : Path) : Path := ⟨path.start, path.names.dropLast⟩

/-- The last name, or nothing. -/
def name (path : Path) : String := path.names.getLast?.getD ""

end Path
end Scaffold
