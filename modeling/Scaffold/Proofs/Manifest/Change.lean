import Scaffold.Manifest
import Scaffold.Proofs.Json.Decoding
import Scaffold.Schema.File

/-!
# When a schema counts as changed

A manifest keeps the digest of the schema's document. As long as two documents with different texts
have different digests, a schema counts as changed exactly when its document differs from the one
the manifest was stamped with in more than the order of members: `Manifest.differsFrom_stamp_iff`.
-/

namespace Scaffold
set_option autoImplicit false

namespace Schema

theorem document_of_build {document : Json.Members} {s : Schema} (h : build document = .ok s) :
    s.document = document := by
  unfold build at h
  simp only [bind_eq_ok] at h
  obtain ⟨entities, -, pivots, -, eq⟩ := h
  rw [← Except.ok.inj eq]

/-- What is true of the document of a schema that was loaded. -/
theorem isDecoded_of_load {disk : Disk} {path : Path} {s : Schema} (h : load disk path = .ok s) :
    Json.IsDecoded (.object s.document) := by
  obtain ⟨members, read, built⟩ := bind_eq_ok.1 h
  have built : build members = .ok s := by
    cases eq : build members with
    | ok t => rw [eq] at built; exact congrArg _ (Except.ok.inj built)
    | error e => rw [eq] at built; cases built
  rw [document_of_build built]
  unfold readFile at read
  split at read
  · cases read
  · split at read
    · rename_i decoded
      obtain rfl := Except.ok.inj read
      exact Json.isDecoded_of_objectOfFile decoded
    · cases read
    · cases read
  · cases read

/-- Two schemas have one digest only if their documents have one text. -/
def AreToldApart (s t : Schema) : Prop :=
  s.hash = t.hash → (Json.object s.document).canonical = (Json.object t.document).canonical

/-- Schemas have one digest exactly when their documents are equal but for the order of members. -/
theorem hash_eq_iff {s t : Schema} (decoded : Json.IsDecoded (.object s.document))
    (decoded' : Json.IsDecoded (.object t.document))
    (apart : s.AreToldApart t) :
    s.hash = t.hash ↔ (Json.object s.document).alike (.object t.document) = true := by
  rw [← Json.canonical_eq_iff decoded.sound decoded'.sound decoded.printable decoded'.printable]
  exact ⟨apart, fun same => by rw [hash, hash, same]⟩

end Schema

/-- The canonical text of a document shows everything but the order of members: any two documents
that were read have one text exactly when they are alike. So a manifest that was stamped with a
schema finds another one unchanged exactly when their documents are alike. -/
theorem Manifest.differsFrom_stamp_iff :
    (∀ {text other : String} {a b : Json}, Json.read text = .ok a → Json.read other = .ok b →
      (a.canonical = b.canonical ↔ a.alike b = true)) ∧
    ∀ {disk disk' : Disk} {path path' : Path} {s t : Schema}, Schema.load disk path = .ok s →
      Schema.load disk' path' = .ok t → s.AreToldApart t → ∀ (m : Manifest) (now : Moment),
      ((m.stamp s now).differsFrom t = false ↔
        (Json.object s.document).alike (.object t.document) = true) := by
  constructor
  · intro text other a b read read'
    have decoded := Json.isDecoded_of_read read
    have decoded' := Json.isDecoded_of_read read'
    exact Json.canonical_eq_iff decoded.sound decoded'.sound decoded.printable decoded'.printable
  · intro disk disk' path path' s t loaded loaded' apart m now
    rw [← Schema.hash_eq_iff (Schema.isDecoded_of_load loaded)
      (Schema.isDecoded_of_load loaded') apart]
    simp [differsFrom, stamp]

/-- A disk with a text in a file. -/
def Disk.holding (text : String) : Disk :=
  (Disk.blank.write (.ofText "schema.json") text.toUTF8 true).2

/-- Two files with the same members in two orders hold one schema. -/
theorem Manifest.differsFrom_stamp_iff_reordered :
    ∃ (a b : Json) (s t : Schema), Json.read "\x7b\"a\":2,\"b\":1\x7d" = .ok a ∧
    Json.read "\x7b\"b\":1,\"a\":2\x7d" = .ok b ∧
      (a.canonical = b.canonical ↔ a.alike b = true) ∧
      Schema.load (Disk.holding "\x7b\"a\":2,\"b\":1\x7d") (.ofText "schema.json") = .ok s ∧
      Schema.load (Disk.holding "\x7b\"b\":1,\"a\":2\x7d") (.ofText "schema.json") = .ok t ∧
      s.AreToldApart t ∧ ∀ (m : Manifest) (now : Moment),
        ((m.stamp s now).differsFrom t = false ↔
          (Json.object s.document).alike (.object t.document) = true) := by
  have checked : succeeds (Json.read "\x7b\"a\":2,\"b\":1\x7d") (fun _ =>
      succeeds (Json.read "\x7b\"b\":1,\"a\":2\x7d") fun _ =>
      succeeds (Schema.load (Disk.holding "\x7b\"a\":2,\"b\":1\x7d") (.ofText "schema.json"))
          fun s =>
      succeeds (Schema.load (Disk.holding "\x7b\"b\":1,\"a\":2\x7d") (.ofText "schema.json"))
          fun t =>
        (Json.object s.document).canonical == (Json.object t.document).canonical) =
          true := by decide +kernel
  obtain ⟨a, read, checked⟩ := succeeds_eq_true.1 checked
  obtain ⟨b, read', checked⟩ := succeeds_eq_true.1 checked
  obtain ⟨s, loaded, checked⟩ := succeeds_eq_true.1 checked
  obtain ⟨t, loaded', same⟩ := succeeds_eq_true.1 checked
  have apart : s.AreToldApart t := fun _ => eq_of_beq same
  exact ⟨a, b, s, t, read, read', Manifest.differsFrom_stamp_iff.1 read read', loaded,
    loaded', apart, Manifest.differsFrom_stamp_iff.2 loaded loaded' apart⟩

end Scaffold
