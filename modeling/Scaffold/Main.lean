import Scaffold.CommandLine
import Scaffold.Disk.Change
import Std.Time

/-!
# The program

What a command line needs of the disk is read, the command is carried out on it, and what changed is
written back.
-/

namespace Scaffold.Program
set_option autoImplicit false

/-- Reads what stands at a place; with `deep`, all that a directory holds. -/
partial def readEntry (disk : Disk) (deep : Bool) (name : String) (above : Place) : IO Disk := do
  let path := (← IO.currentDir) / Disk.pathText (name :: above)
  let .ok data ← path.metadata.toBaseIO | return disk
  match data.type with
  | .dir =>
    let mut disk := disk.put name above .directory
    if deep then
      for entry in ← path.readDir do
        disk ← readEntry disk true entry.fileName (name :: above)
    return disk
  | .file => return disk.put name above (.file (← IO.FS.readBinFile path))
  | _ => return disk

/-- Reads what stands along a path, and with `deep` all below it. -/
def readAlong (deep : Bool) : List String → Place → Disk → IO Disk
  | [], _, disk => return disk
  | name :: rest, above, disk => do
    readAlong deep rest (name :: above) (← readEntry disk (deep && rest.isEmpty) name above)

/-- Reads what a path names. -/
def readPath (disk : Disk) (deep : Bool) (text : String) : IO Disk :=
  if Text.hasChar '\x00' text then return disk
  else readAlong deep (Path.ofText (disk.absoluteText (Path.ofText text))).names [] disk

/-- The disk as far as a command line needs it. -/
def readDisk (words : List String) : IO Disk := do
  let here := (Path.ofText (← IO.currentDir).toString).names
  let disk ← readAlong false here [] { Disk.blank with here := here.reverse }
  match CommandLine.Command.ofWords words with
  | .ok (.generate schema root _) => readPath (← readPath disk false schema) true (root.getD schema)
  | .ok (.validate schema) => readPath disk false schema
  | .error _ => return disk

/-- Writes a file elsewhere and moves it to its place. -/
def writeWhole (path : String) (content : ByteArray) : IO Unit := do
  let target := Path.ofText path
  let temporary := (target.parent.extend [Disk.temporaryName target.name]).text
  IO.FS.writeBinFile temporary content
  IO.FS.rename temporary path

def applyChange : DiskChange → IO Unit
  | .delete path => IO.FS.removeFile path
  | .makeDirectory path => IO.FS.createDir path
  | .write path content => writeWhole path content

/-- The time on the clock. -/
def clock : IO Moment := do
  let now ← Std.Time.PlainDateTime.now
  return {
    year := now.year.toInt.toNat, month := now.month.toNat, day := now.day.toNat
    hour := now.hour.toNat, minute := now.minute.toNat, second := now.second.toNat
    microsecond := now.nanosecond.toNat / 1000 }

end Scaffold.Program

def main (words : List String) : IO UInt32 := do
  let disk ← Scaffold.Program.readDisk words
  let (reply, after) := Scaffold.CommandLine.run (← Scaffold.Program.clock) words disk
  (disk.changes after).forM Scaffold.Program.applyChange
  match reply with
  | .ok reply =>
    IO.print reply.output
    IO.eprint reply.errors
    return reply.exit.toUInt32
  | .error stop =>
    IO.eprintln stop.message
    return 1
