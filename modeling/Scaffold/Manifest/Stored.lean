import Scaffold.Json.Lenient
import Scaffold.Manifest

/-!
# The stored form of a manifest

A manifest as a JSON object and back. Reading is lenient about numbers, leaves out members that it
does not know, and adds the buckets that are missing; what it cannot accept it counts.
-/

namespace Scaffold
set_option autoImplicit false

/-- A value that was read, or the number of violations in it. -/
abbrev Accepted (α : Type) := Except Nat α

namespace Accepted

variable {α β : Type}

/-- A value that is there, or one violation. -/
def ofOption : Option α → Accepted α
  | some a => .ok a
  | none => .error 1

/-- How many violations there are. -/
def violations : Accepted α → Nat
  | .ok _ => 0
  | .error count => count

/-- Both values, or the violations of both. -/
def both (a : Accepted α) (b : Accepted β) : Accepted (α × β) :=
  match a, b with
  | .ok a, .ok b => .ok (a, b)
  | a, b => .error (a.violations + b.violations)

/-- All values, or the violations of all. -/
def all : List (Accepted α) → Accepted (List α)
  | [] => .ok []
  | a :: rest => (both a (all rest)).map fun (a, rest) => a :: rest

end Accepted

/-- The value of a member, or what holds when it is absent. -/
def memberOr {α : Type} (members : Json.Members) (key : String) (absent : Accepted α)
    (accept : Json → Accepted α) : Accepted α :=
  match members.get? key with
  | some value => accept value
  | none => absent

def acceptText (value : Json) : Accepted String := .ofOption value.asText?

/-- A text or null. -/
def acceptTextOrNull : Json → Accepted (Option String)
  | .null => .ok none
  | value => (acceptText value).map some

def acceptObject (value : Json) : Accepted Json.Members := .ofOption value.asObject?

/-- A number that is not negative. -/
def acceptSize (value : Json) : Accepted Nat :=
  match value.asWhole? with
  | some (.ofNat size) => .ok size
  | _ => .error 1

namespace FileRecord

/-- The members that a record may have. -/
def memberNames : List String := ["generated_at", "content_hash", "size_bytes", "metadata"]

/-- The record that members describe; each member that is not known is a violation. -/
def ofMembers (members : Json.Members) : Accepted FileRecord :=
  let unknown := (members.filter fun m => !memberNames.contains m.1).length
  let known := (memberOr members "generated_at" (.error 1) acceptText).both
    ((memberOr members "content_hash" (.ok none) acceptTextOrNull).both
      ((memberOr members "size_bytes" (.ok 0) acceptSize).both
        (memberOr members "metadata" (.ok []) acceptObject)))
  match unknown, known with
  | 0, .ok (generatedAt, contentHash, size, metadata) =>
    .ok ⟨generatedAt, contentHash, size, metadata⟩
  | unknown, known => .error (unknown + known.violations)

def ofJson : Json → Accepted FileRecord
  | .object members => ofMembers members
  | _ => .error 1

end FileRecord

mutual

/-- A value in which infinite numbers and what is no number are null. -/
def Json.finite : Json → Json
  | .float value => if value.isFinite then .float value else .null
  | .array items => .array (finiteItems items)
  | .object members => .object (finiteMembers members)
  | value => value

def Json.finiteItems : List Json → List Json
  | [] => []
  | item :: items => item.finite :: finiteItems items

def Json.finiteMembers : List (String × Json) → List (String × Json)
  | [] => []
  | (name, value) :: members => (name, value.finite) :: finiteMembers members

end

/-- A text or null as JSON. -/
def Json.ofText? : Option String → Json
  | some text => .string text
  | none => .null

def FileRecord.toJson (r : FileRecord) : Json :=
  .object [("generated_at", .string r.generatedAt), ("content_hash", .ofText? r.contentHash),
    ("size_bytes", .int r.size), ("metadata", (Json.object r.metadata).finite)]

namespace Manifest

/-- A value for every member of an object. -/
def acceptMembers {α : Type} (accept : Json → Accepted α) (value : Json) :
    Accepted (OrderedMap α) :=
  match value with
  | .object members =>
    (Accepted.all (members.map fun m => (accept m.2).map fun a => (m.1, a))).map .ofList
  | _ => .error 1

/-- The buckets with those of the kinds that are missing. -/
def withAllKinds (buckets : OrderedMap Bucket) : OrderedMap Bucket :=
  ArtifactKind.all.foldl
    (fun buckets kind => if buckets.has kind.name then buckets
      else buckets.insert kind.name .empty) buckets

/-- The manifest that members describe. Its records are counted anew, whatever number stands
there. -/
def ofMembers (members : Json.Members) : Accepted Manifest :=
  let fresh : Manifest := {}
  ((memberOr members "version" (.ok fresh.version) acceptText).both
    ((memberOr members "generated_at" (.ok none) acceptTextOrNull).both
      ((memberOr members "schema_hash" (.ok none) acceptTextOrNull).both
        ((memberOr members "schema_snapshot" (.ok none) fun
            | .null => .ok none
            | value => (acceptObject value).map some).both
          ((memberOr members "files" (.ok fresh.buckets)
            (acceptMembers (acceptMembers FileRecord.ofJson))).both
            ((memberOr members "total_file_count" (.ok 0) fun v => .ofOption v.asWhole?).both
              (memberOr members "generator_version" (.ok "") acceptText))))))).map
    fun (version, generatedAt, schemaHash, snapshot, buckets, _, generatorVersion) =>
      recount
        { version, generatedAt, schemaHash, snapshot
          buckets := withAllKinds buckets
          generatorVersion }

/-- The object of a manifest. -/
def toJson (m : Manifest) : Json :=
  let bucket (b : Bucket) : Json :=
    .object (b.entries.map fun (path, record) => (path, record.toJson))
  .object [("version", .string m.version), ("generated_at", .ofText? m.generatedAt),
    ("schema_hash", .ofText? m.schemaHash),
    ("schema_snapshot", match m.snapshot with
      | some members => (Json.object members).finite
      | none => .null),
    ("files", .object (m.buckets.entries.map fun (kind, b) => (kind, bucket b))),
    ("total_file_count", .int m.count), ("generator_version", .string m.generatorVersion)]

/-- The text of the manifest's file. -/
def serialized (m : Manifest) : String := m.toJson.indented

end Manifest
end Scaffold
