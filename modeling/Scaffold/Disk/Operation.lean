import Scaffold.Disk
import Scaffold.Path
import Scaffold.Text.Quoted

/-!
# Work on a disk

Reading, writing, deleting and making directories, by path. An operation that the disk refuses says
why, in the words of the operating system.
-/

namespace Scaffold
set_option autoImplicit false

/-- Why the disk refuses an operation. -/
inductive Refusal where
  | missing
  | alreadyThere
  | notADirectory
  | isADirectory
  | nameTooLong
  deriving DecidableEq, Repr

/-- The reason with its number. -/
def Refusal.message : Refusal → String
  | missing => "[Errno 2] No such file or directory"
  | alreadyThere => "[Errno 17] File exists"
  | notADirectory => "[Errno 20] Not a directory"
  | isADirectory => "[Errno 21] Is a directory"
  | nameTooLong => "[Errno 36] File name too long"

/-- An operation that failed: the disk refused it for a path, or for moving a file onto a path, or
the path holds a character that no path can hold. -/
inductive DiskError where
  | refused (why : Refusal) (path : String)
  | refusedOnto (why : Refusal) (path target : String)
  | nullCharacter
  deriving DecidableEq, Repr

def DiskError.message : DiskError → String
  | refused why path => why.message ++ ": " ++ Text.quoted path
  | refusedOnto why path target =>
    why.message ++ ": " ++ Text.quoted path ++ " -> " ++ Text.quoted target
  | nullCharacter => "embedded null byte"

/-- The most bytes that a name may have. -/
def longestName : Nat := 255

def isTooLong (name : String) : Bool := longestName < name.utf8ByteSize

/-- The most bytes that the text of a path may have. -/
def longestPath : Nat := 4095

def isTooLongPath (text : String) : Bool := longestPath < text.utf8ByteSize

namespace Disk

/-- Follows names from a place, through directories only; the last name need not be there. -/
def walk (disk : Disk) : Place → List String → Except Refusal Place
  | place, [] => .ok place
  | place, name :: rest =>
    if disk.isDirectory place then
      if name = ".." then walk disk place.tail rest
      else if isTooLong name then .error .nameTooLong
      else walk disk (name :: place) rest
    else .error (if (disk.get? place).isSome then .notADirectory else .missing)

/-- Where the names of a path start. -/
def startOf (disk : Disk) (path : Path) : Place := if path.isAbsolute then [] else disk.here

/-- The place that a path names. -/
def locate (disk : Disk) (path : Path) : Except DiskError Place :=
  if path.names.any (Text.hasChar '\x00') then .error .nullCharacter
  else if isTooLongPath path.text then .error (.refused .nameTooLong path.text)
  else (disk.walk (disk.startOf path) path.names).mapError (.refused · path.text)

/-- What stands at a path; nothing where the path leads nowhere. -/
def status (disk : Disk) (path : Path) : Except DiskError (Option Entry) :=
  match disk.locate path with
  | .ok place => .ok (disk.get? place)
  | .error (.refused .nameTooLong text) => .error (.refused .nameTooLong text)
  | .error _ => .ok none

def read (disk : Disk) (path : Path) : Except DiskError ByteArray := do
  let place ← disk.locate path
  match disk.get? place with
  | some (.file content) => return content
  | some .directory => throw (.refused .isADirectory path.text)
  | none => throw (.refused .missing path.text)

/-- Deletes a file. -/
def delete (disk : Disk) (path : Path) : Except DiskError Disk := do
  let place ← disk.locate path
  match disk.get? place with
  | some (.file _) => return disk.remove place
  | some .directory => throw (.refused .isADirectory path.text)
  | none => throw (.refused .missing path.text)

/-- Makes a directory in one that is there. -/
def makeDirectory (disk : Disk) (path : Path) : Except DiskError Disk := do
  let place ← disk.locate path
  match disk.get? place, place with
  | none, name :: above => return disk.put name above .directory
  | _, _ => throw (.refused .alreadyThere path.text)

def isDirectoryAt (disk : Disk) (path : Path) : Bool :=
  match disk.status path with
  | .ok (some .directory) => true
  | _ => false

/-- Makes a directory unless it is there already. -/
def settleDirectory (disk : Disk) (path : Path) : Except DiskError Disk :=
  match disk.makeDirectory path with
  | .ok disk => .ok disk
  | .error e => if disk.isDirectoryAt path then .ok disk else .error e

/-- Makes a directory and those above it that are missing; the last of `names` comes first. -/
def makeAll (disk : Disk) (start : String) : List String → Except DiskError Unit × Disk
  | [] => (.ok (), disk)
  | name :: above =>
    let path : Path := ⟨start, (name :: above).reverse⟩
    match disk.settleDirectory path with
    | .ok disk => (.ok (), disk)
    | .error (.refused .missing _) =>
      match makeAll disk start above with
      | (.ok (), disk) =>
        match disk.settleDirectory path with
        | .ok disk => (.ok (), disk)
        | .error e => (.error e, disk)
      | failed => failed
    | .error e => (.error e, disk)

/-- Makes sure that a directory is there. -/
def makeDirectories (disk : Disk) (path : Path) : Except DiskError Unit × Disk :=
  disk.makeAll path.start path.names.reverse

/-- The text of a path from the root of the disk, with every `..` taken with the name before it. -/
def absoluteText (disk : Disk) (path : Path) : String :=
  let step (place : Place) (name : String) : Place :=
    if name = ".." then place.tail else name :: place
  (Path.mk "/" (path.names.foldl step (disk.startOf path)).reverse).text

/-- The name of the file that is written first and then moved; its random part is left open. -/
def temporaryName (name : String) : String := "." ++ name ++ ".RAND.tmp"

/-- The file that is written before it takes the place of a path. -/
def temporaryText (disk : Disk) (path : Path) : String :=
  ((Path.ofText (disk.absoluteText path.parent)).extend [temporaryName path.name]).text

/-- How many characters are random in the name of that file, where it shows four. -/
def randomLength : Nat := 8

/-- Whether the path of that file is too long, or its name. -/
def isTooLongTemporary (disk : Disk) (path : Path) : Bool :=
  longestName < (temporaryName path.name).utf8ByteSize - 4 + randomLength ||
    longestPath < (disk.temporaryText path).utf8ByteSize - 4 + randomLength

/-- Puts a file at a path whose directory is there. With `whole` it is written elsewhere and then
moved, so that no half of it is ever seen. Whatever refuses the write does so before the first byte:
a write in place that breaks off half-way, and leaves a cut file, is not covered. -/
def writeIn (disk : Disk) (path : Path) (content : ByteArray) (whole : Bool) :
    Except DiskError Disk := do
  if whole && disk.isTooLongTemporary path && !Text.hasChar '\x00' path.name then
    throw (.refused .nameTooLong (disk.temporaryText path))
  let place ← disk.locate path
  if disk.isDirectory place then
    throw (if whole then .refusedOnto .isADirectory (disk.temporaryText path) path.text
      else .refused .isADirectory path.text)
  match place with
  | name :: above => return disk.put name above (.file content)
  | [] => throw (.refused .isADirectory path.text)

/-- Writes a file, and makes the directories above it. -/
def write (disk : Disk) (path : Path) (content : ByteArray) (whole : Bool) :
    Except DiskError Unit × Disk :=
  match disk.makeDirectories path.parent with
  | (.ok (), disk) =>
    match disk.writeIn path content whole with
    | .ok disk => (.ok (), disk)
    | .error e => (.error e, disk)
  | failed => failed

end Disk
end Scaffold
