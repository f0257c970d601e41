import Scaffold.Manifest.Stored
import Scaffold.Project

/-!
# The store of a project

Where a project keeps its manifest, and a history of the manifests that came before: one file for
each save, of which the newest are kept.
-/

namespace Scaffold
set_option autoImplicit false

/-- Where the manifest and its history are kept, and how much history. -/
structure Store where
  manifestPath : String := ".ai-native-manifest.json"
  historyDirectory : String := ".ai-native/history"
  historyLimit : Int := 10
  deriving DecidableEq, Repr

namespace Store

/-- The manifest of a project; a new one where there is none yet. -/
def load (store : Store) (p : Project) : Except Interruption Manifest := do
  if ← p.fileExists store.manifestPath then
    match Json.objectOfBytes (← p.read store.manifestPath) with
    | .ok members =>
      (Manifest.ofMembers members).mapError fun count =>
        .corrupt store.manifestPath (.violations count)
    | .error (.numeral e) => throw (.numeral e)
    | .error e => throw (.corrupt store.manifestPath (.document e))
  else return {}

/-- The text of a value for a file. -/
def printed (json : Json) : Except Interruption String :=
  if json.isPrintable then .ok json.indented else .error (.numeral .unwritable)

/-- Writes the manifest, with its records counted. -/
def save (store : Store) (m : Manifest) (p : Project) : Except Interruption Unit × Project :=
  match printed m.recount.toJson with
  | .error e => (.error e, p)
  | .ok text =>
    match p.writeText store.manifestPath text with
    | (.ok _, p) => (.ok (), p)
    | (.error e, p) => (.error e, p)

/-- The files of the history, oldest first. -/
def historyFiles (store : Store) (p : Project) : Except Interruption (List String) := do
  if ← p.isDirectory store.historyDirectory then p.glob (store.historyDirectory ++ "/*.json")
  else return []

/-- Deletes files one after another. -/
def deleteAll : List String → Project → Except Interruption Unit × Project
  | [], p => (.ok (), p)
  | path :: rest, p =>
    match p.delete path with
    | .ok (_, p) => deleteAll rest p
    | .error e => (.error e, p)

/-- How many of so many files are over the limit. -/
def excess (store : Store) (count : Nat) : Nat := (count - store.historyLimit).toNat

/-- Deletes the oldest files over the limit and tells which. -/
def pruneHistory (store : Store) (p : Project) : Except Interruption (List String) × Project :=
  match store.historyFiles p with
  | .error e => (.error e, p)
  | .ok files =>
    let old := files.take (store.excess files.length)
    match deleteAll old p with
    | (.ok (), p) => (.ok old, p)
    | (.error e, p) => (.error e, p)

/-- The name of a history file, without its number: the moment and the start of the digest. -/
def historyStem (m : Manifest) (now : Moment) : String :=
  let digest := (m.schemaHash.filter (!·.isEmpty)).getD "00000000"
  now.dashed ++ "_" ++ String.ofList (digest.toList.take 8)

/-- The paths under which a manifest can enter the history: first without a number. -/
def historyPaths (store : Store) (stem : String) (count : Nat) : List String :=
  let base := store.historyDirectory ++ "/" ++ stem
  (base ++ ".json") :: (List.range count).map fun i => base ++ "_" ++ toString (i + 1) ++ ".json"

/-- The first of several paths at which nothing stands. -/
def firstFree (p : Project) : List String → Except Interruption (Option String)
  | [] => .ok none
  | path :: rest => do
    if ← p.fileExists path then firstFree p rest else return some path

/-- What a history file holds. -/
def historyEntry (m : Manifest) (now : Moment) : Json :=
  .object [("timestamp", .string now.iso), ("schema_hash", .ofText? m.schemaHash),
    ("manifest", m.toJson)]

/-- Adds a manifest to the history and deletes what is then over the limit. There are more paths to
choose from than entries on the disk, so one of them is free. -/
def saveToHistory (store : Store) (m : Manifest) (now : Moment) (p : Project) :
    Except Interruption String × Project :=
  match p.makeDirectory store.historyDirectory with
  | (.error e, p) => (.error e, p)
  | (.ok (), p) =>
    let paths := store.historyPaths (historyStem m now) (p.disk.entries.length + 1)
    match firstFree p paths with
    | .error e => (.error e, p)
    | .ok free =>
      let path := free.getD ""
      match printed (historyEntry m now) with
      | .error e => (.error e, p)
      | .ok text =>
        match p.writeText path text with
        | (.error e, p) => (.error e, p)
        | (.ok _, p) =>
          match store.pruneHistory p with
          | (.ok _, p) => (.ok path, p)
          | (.error e, p) => (.error e, p)

/-- The members of a history file, with its path; none where it cannot be read. -/
def readEntry (p : Project) (path : String) :
    Except Interruption (Option (String × Json.Members)) :=
  match p.readText path with
  | .error (.failure _) => .ok none
  | .error e => .error e
  | .ok text =>
    match Json.objectOfText text with
    | .ok members => .ok (some (path, members.put "path" (.string path)))
    | .error (.numeral e) => .error (.numeral e)
    | .error _ => .ok none

/-- The history, newest first; files that cannot be read are left out. -/
def history (store : Store) (p : Project) : Except Interruption (List (String × Json.Members)) := do
  return (← (← store.historyFiles p).reverse.mapM (readEntry p)).filterMap id

end Store
end Scaffold
