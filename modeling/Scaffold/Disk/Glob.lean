import Scaffold.Disk.Operation
import Scaffold.Pattern
import Scaffold.Sorting

/-!
# Files by pattern

The files of a directory whose paths fit a pattern. Here a pattern is cut at its slashes first, so
that `*` stays within one name; `**` in place of a name stands for any directories. The newest
directories are searched first: the order decides which path is named when one is too long.
-/

namespace Scaffold
set_option autoImplicit false

/-- One name of a pattern. -/
inductive GlobStep where
  | name (name : String)
  | fitting (pattern : Pattern)
  | anyDepth

/-- A pattern for files. -/
structure Glob where
  steps : List GlobStep
  /-- The pattern ends in a slash, so that only a directory fits. -/
  directories : Bool

namespace Glob

/-- Why a text is no pattern for files. -/
inductive Invalid where
  | empty
  | depthInName
  | absolute
  | noName (slash : Bool)
  deriving DecidableEq, Repr

def Invalid.message : Invalid → String
  | empty => "Unacceptable pattern: ''"
  | depthInName => "Invalid pattern: '**' can only be an entire path component"
  | absolute => "Non-relative patterns are unsupported"
  | noName false => "tuple index out of range"
  | noName true => "'_TerminatingSelector' object has no attribute 'select_from'"

/-- What a name of a pattern stands for. -/
def stepOf (name : String) : Except Invalid GlobStep :=
  if name = "**" then .ok .anyDepth
  else if Text.has "**" name then .error .depthInName
  else if Pattern.isPattern name then .ok (.fitting (Pattern.parts name.toList))
  else .ok (.name name)

/-- The pattern that a text spells. -/
def ofText (text : String) : Except Invalid Glob := do
  if text.isEmpty then throw .empty
  let path := Path.ofText text
  if path.isAbsolute then throw .absolute
  let slash := Text.endsWith "/" text
  if path.names.isEmpty then throw (.noName slash)
  return ⟨← path.names.mapM stepOf, slash⟩

end Glob

namespace Disk

/-- The directories below a place, the oldest first, each with the names that lead to it. -/
def directoriesBelow (disk : Disk) (place : Place) : List (Place × List String) :=
  disk.entries.filterMap fun (p, entry) =>
    if entry = .directory && place.isSuffixOf p && p ≠ place then
      some (p, (p.take (p.length - place.length)).reverse)
    else none

/-- A list with one more item, right after the first that fits; at the end where none does. -/
def insertAfter {α : Type} (fits : α → Bool) (new : α) : List α → List α
  | [] => [new]
  | item :: rest => if fits item then item :: new :: rest else item :: insertAfter fits new rest

theorem mem_insertAfter {α : Type} {fits : α → Bool} {new x : α} {items : List α} :
    x ∈ insertAfter fits new items ↔ x = new ∨ x ∈ items := by
  induction items with
  | nil => simp [insertAfter]
  | cons item rest ih => by_cases h : fits item <;> grind [insertAfter]

/-- The directories at a place and below it, each with the names that lead to it: a directory stands
before those in it, and of those in one directory the newer stands first. -/
def directoriesFrom (disk : Disk) (place : Place) : List (Place × List String) :=
  (disk.directoriesBelow place).foldl
    (fun found new => insertAfter (fun above => above.1 = new.1.tail) new found) [(place, [])]

/-- Which directories are found does not hang on their age. -/
theorem mem_directoriesFrom {disk : Disk} {place : Place} {x : Place × List String} :
    x ∈ disk.directoriesFrom place ↔ x = (place, []) ∨ x ∈ disk.directoriesBelow place := by
  have fold : ∀ (below found : List (Place × List String)),
      x ∈ below.foldl (fun found new =>
        insertAfter (fun above => above.1 = new.1.tail) new found) found ↔
        x ∈ found ∨ x ∈ below := by
    intro below
    induction below with
    | nil => simp
    | cons new rest ih =>
      intro found
      rw [List.foldl_cons, ih, mem_insertAfter, List.mem_cons]
      grind
  rw [directoriesFrom, fold, List.mem_singleton]

/-- The files that fit the steps, from a place on, each as names after those `shown` already. -/
def select (disk : Disk) (root : Path) (directories : Bool) :
    List GlobStep → Place → List String → Except DiskError (List (List String))
  | [], place, shown => .ok (if disk.isFile place then [shown] else [])
  | .name name :: rest, place, shown =>
    let text := (root.extend (shown ++ [name])).text
    if isTooLong name || isTooLongPath text then .error (.refused .nameTooLong text)
    else
      let next := if name = ".." then place.tail else name :: place
      let fits :=
        if rest.isEmpty && !directories then (disk.get? next).isSome else disk.isDirectory next
      if fits then select disk root directories rest next (shown ++ [name]) else .ok []
  | .fitting pattern :: rest, place, shown =>
    let names := (disk.children place).filter fun name =>
      Pattern.recognizes pattern name.toList &&
        ((rest.isEmpty && !directories) || disk.isDirectory (name :: place))
    (names.mapM fun name => select disk root directories rest (name :: place)
      (shown ++ [name])).map List.flatten
  | .anyDepth :: rest, place, shown =>
    ((disk.directoriesFrom place).mapM fun (below, names) =>
      select disk root directories rest below (shown ++ names)).map List.flatten

/-- The files below a directory that fit a pattern, in order; none where there is no directory. -/
def glob (disk : Disk) (root : Path) (pattern : Glob) : Except DiskError (List String) :=
  match disk.locate root with
  | .ok place =>
    if disk.isDirectory place then
      (disk.select root pattern.directories pattern.steps place []).map fun found =>
        distinctSorted (found.map (Text.join "/"))
    else .ok []
  | .error (.refused .nameTooLong text) => .error (.refused .nameTooLong text)
  | .error _ => .ok []

end Disk
end Scaffold
