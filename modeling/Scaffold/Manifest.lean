import Scaffold.Artifact
import Scaffold.OrderedMap

/-!
# Manifests

What a project remembers of its generated files: a record for each, in buckets by kind, and the
schema that they were generated from. A path stands in at most one bucket once it is tracked.
-/

namespace Scaffold
set_option autoImplicit false

/-- A generated file as it was last written. -/
structure FileRecord where
  generatedAt : String
  contentHash : Option String
  size : Nat
  metadata : Json.Members

/-- The records of the files of one kind, by path. -/
abbrev Bucket := OrderedMap FileRecord

structure Manifest where
  version : String := "1.0.0"
  generatedAt : Option String := none
  schemaHash : Option String := none
  snapshot : Option Json.Members := none
  buckets : OrderedMap Bucket := .ofList (ArtifactKind.all.map fun kind => (kind.name, .empty))
  /-- How many records there were when they were last counted. -/
  count : Nat := 0
  generatorVersion : String := ""

namespace Manifest

/-- The version of the generator that a manifest names. -/
def currentGenerator : String := "1.0.0"

/-- All records with their kinds and paths. -/
def records (m : Manifest) : List (String × String × FileRecord) :=
  m.buckets.entries.flatMap fun (kind, bucket) => bucket.entries.map fun (path, record) =>
    (kind, path, record)

/-- The manifest with its records counted. -/
def recount (m : Manifest) : Manifest := { m with count := m.records.length }

/-- The paths that have a record, each once. -/
def trackedPaths (m : Manifest) : List String := (m.records.map (·.2.1)).eraseDups

/-- The record of a path, of several the first. -/
def record? (m : Manifest) (path : String) : Option FileRecord :=
  m.buckets.values.findSome? fun bucket => bucket.get? path

/-- Sets the record of a path in a bucket. -/
def upsert (m : Manifest) (kind path : String) (record : FileRecord) : Manifest :=
  recount { m with
    buckets := m.buckets.insert kind (((m.buckets.get? kind).getD .empty).insert path record) }

/-- Without the records of a path, and how many there were. -/
def remove (m : Manifest) (path : String) : Nat × Manifest :=
  (m.buckets.values.countP (·.has path), recount { m with buckets := m.buckets.map (·.erase path) })

/-- Sets the record of a path, so that it stands in that bucket only. -/
def track (m : Manifest) (kind path : String) (record : FileRecord) : Manifest :=
  let keep (entry : String × Bucket) : String × Bucket :=
    if entry.1 = kind then entry else (entry.1, entry.2.erase path)
  let others : OrderedMap Bucket :=
    ⟨m.buckets.entries.map keep, by
      have same : (m.buckets.entries.map keep).map (·.1) = m.buckets.entries.map (·.1) := by
        rw [List.map_map]
        apply List.map_congr_left
        intro entry _
        simp only [Function.comp, keep]
        split <;> rfl
      rw [same]
      exact m.buckets.nodup_keys⟩
  { m with buckets := others }.upsert kind path record

/-- The manifest of files that were generated from a schema at a moment. -/
def stamp (m : Manifest) (s : Schema) (now : Moment) : Manifest :=
  { m with
    schemaHash := some s.hash, snapshot := some s.document, generatedAt := some now.isoUtc
    generatorVersion := currentGenerator }

/-- Whether the files were generated from another schema. -/
def differsFrom (m : Manifest) (s : Schema) : Bool := m.schemaHash != some s.hash

/-- The tracked paths that a schema does not require. -/
def obsolete (m : Manifest) (s : Schema) : List String :=
  let required := s.requiredArtifacts
  m.trackedPaths.filter fun path => !Pattern.anyCovers required path

end Manifest
end Scaffold
