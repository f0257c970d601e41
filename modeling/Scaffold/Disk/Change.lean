import Scaffold.Disk
import Scaffold.Path

/-!
# Changes of a disk

The steps that turn the files and directories of one disk into those of another.
-/

namespace Scaffold
set_option autoImplicit false

inductive DiskChange where
  | delete (path : String)
  | makeDirectory (path : String)
  | write (path : String) (content : ByteArray)

namespace Disk

/-- The path of a place from the root. -/
def pathText (place : Place) : String := (Path.mk "/" place.reverse).text

/-- The change that a place of the new disk asks for. -/
def changeAt? (before : Disk) (place : Place) : Entry → Option DiskChange
  | .directory => if before.isDirectory place then none else some (.makeDirectory (pathText place))
  | .file content =>
    if before.get? place = some (.file content) then none
    else some (.write (pathText place) content)

/-- The files that are gone are deleted, and then what is new is made, a directory before what
stands in it. Directories stay. -/
def changes (before after : Disk) : List DiskChange :=
  (before.entries.filterMap fun (place, _) =>
    if before.isFile place && !after.isFile place then some (.delete (pathText place)) else none) ++
  after.entries.filterMap fun (place, entry) => before.changeAt? place entry

end Disk
end Scaffold
