import Scaffold.Disk
import Scaffold.Sorting
import Scaffold.Text

/-!
# Listings

What stands below a directory: its files, and the directories in it that hold nothing.
-/

namespace Scaffold.Disk
set_option autoImplicit false

/-- The path of a place from a directory above it, if it is below that. -/
def pathFrom? (above place : Place) : Option String :=
  if above.isSuffixOf place && place ≠ above then
    some (Text.join "/" (place.take (place.length - above.length)).reverse)
  else none

/-- The files below a directory with their contents and the empty directories with none, by path in
order; the path of a directory ends in a slash. -/
def listing (disk : Disk) (above : Place) : List (String × Option ByteArray) :=
  sortOn (·.1) (disk.entries.filterMap fun (place, entry) =>
    (pathFrom? above place).bind fun path =>
      match entry with
      | .file content => some (path, some content)
      | .directory => if (disk.children place).isEmpty then some (path ++ "/", none) else none)

end Scaffold.Disk
