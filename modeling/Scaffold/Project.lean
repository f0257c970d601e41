import Scaffold.Interruption

/-!
# Projects

A directory of a disk in which files are generated. Every path is taken from the root of the
project, and none leads out of it.
-/

namespace Scaffold
set_option autoImplicit false

/-- An operation that the surroundings refuse, for instance because a permission is missing. -/
structure Denial where
  operation : Operation
  path : String
  reason : String
  deriving DecidableEq, Repr

/-- A project on a disk. With `whole`, as everywhere in the program, a file is written elsewhere and
then moved into its place, so that it is never seen half written. -/
structure Project where
  disk : Disk
  root : Path
  whole : Bool := true
  denials : List Denial := []

namespace Project

/-- How a project shows in a report. -/
def shown (p : Project) : String := "<ProjectFilesystem " ++ p.root.text ++ ">"

/-- The path on the disk of a path in the project. -/
def resolve (p : Project) (path : String) : Except IOFailure Path :=
  let inside := Path.ofText path
  if inside.isAbsolute || inside.names.contains ".." then .error ⟨.resolve, path, .outsideRoot⟩
  else .ok (p.root.extend inside.names)

/-- The failure of an operation that the disk refuses; a path that no disk can hold interrupts. -/
def refusal (operation : Operation) (path : String) : DiskError → Interruption
  | .nullCharacter => .disk .nullCharacter
  | error => .failure ⟨operation, path, .disk error⟩

/-- Fails if the surroundings refuse an operation. -/
def permit (p : Project) (operation : Operation) (path : String) : Except Interruption Unit :=
  match p.denials.find? fun d => d.operation = operation && d.path == path with
  | some d => .error (.failure ⟨operation, path, .denied d.reason⟩)
  | none => .ok ()

/-- What stands at a path. -/
def status (p : Project) (path : String) : Except Interruption (Option Entry) := do
  let path ← (p.resolve path).mapError .failure
  (p.disk.status path).mapError .disk

def fileExists (p : Project) (path : String) : Except Interruption Bool :=
  (p.status path).map Option.isSome

def isDirectory (p : Project) (path : String) : Except Interruption Bool :=
  (p.status path).map (· = some .directory)

/-- The files that fit a pattern, in order. -/
def glob (p : Project) (pattern : String) : Except Interruption (List String) := do
  p.permit .glob pattern
  match Glob.ofText pattern with
  | .ok glob => (p.disk.glob p.root glob).mapError (refusal .glob pattern)
  | .error .empty => throw (.failure ⟨.glob, pattern, .pattern .empty⟩)
  | .error .depthInName => throw (.failure ⟨.glob, pattern, .pattern .depthInName⟩)
  | .error error => throw (.pattern error)

def read (p : Project) (path : String) : Except Interruption ByteArray := do
  p.permit .read path
  let resolved ← (p.resolve path).mapError .failure
  (p.disk.read resolved).mapError (refusal .read path)

def readText (p : Project) (path : String) : Except Interruption String := do
  (Text.Utf8.decode (← p.read path)).mapError fun error =>
    .failure ⟨.decode, path, .undecodable error⟩

/-- Writes a file and tells its size. A write that is refused leaves what stood at the path. So it
is when files are written whole; without `whole` a write that broke off half-way would leave a cut
file, and no such write is covered here. -/
def write (p : Project) (path : String) (content : ByteArray) : Except Interruption Nat × Project :=
  match (do p.permit .write path; (p.resolve path).mapError .failure :
      Except Interruption Path) with
  | .error e => (.error e, p)
  | .ok resolved =>
    match p.disk.write resolved content p.whole with
    | (.ok (), disk) => (.ok content.size, { p with disk })
    | (.error e, disk) => (.error (refusal .write path e), { p with disk })

def writeText (p : Project) (path text : String) : Except Interruption Nat × Project :=
  p.write path text.toUTF8

/-- Deletes a file; false when there was none. -/
def delete (p : Project) (path : String) : Except Interruption (Bool × Project) := do
  p.permit .delete path
  let resolved ← (p.resolve path).mapError .failure
  match p.disk.delete resolved with
  | .ok disk => return (true, { p with disk })
  | .error (.refused .missing _) => return (false, p)
  | .error e => throw (refusal .delete path e)

/-- Makes sure that a directory is there. -/
def makeDirectory (p : Project) (path : String) : Except Interruption Unit × Project :=
  match p.resolve path with
  | .error f => (.error (.failure f), p)
  | .ok resolved =>
    match p.disk.makeDirectories resolved with
    | (.ok (), disk) => (.ok (), { p with disk })
    | (.error e, disk) => (.error (refusal .createDirectory path e), { p with disk })

end Project
end Scaffold
