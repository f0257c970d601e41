import Mathlib.Data.List.Nodup
import Scaffold.Manifest.Store
import Scaffold.Proofs.Json.Likeness
import Scaffold.Proofs.Manifest.Cleanup
import Scaffold.Proofs.OrderedMaps

/-!
# Loading a saved manifest

What was saved is loaded again: the same digest, and for each path the same records, but for the
notes in them. The main statement is `Manifest.ofMembers_toJson`.
-/

namespace Scaffold
set_option autoImplicit false

namespace Json

/-- An object whose members have distinct names keeps them, in the order of the names. -/
theorem reread_object {members : Members} (nodup : (members.map (·.1)).Nodup) :
    (Json.object members).reread = .object ((sortOn (·.1) members).map fun m =>
      (m.1, m.2.reread)) := by
  rw [reread, rereadMembers_eq, sortOn_map (·.1) (by simp), putAll_of_nodup]
  rw [List.map_map]
  exact ((sortOn_perm _ members).map _).nodup_iff.2 nodup

/-- Each member of a reread object is the reread one of that name. -/
theorem get?_reread {members : Members} (nodup : (members.map (·.1)).Nodup) (key : String) :
    Members.get? ((sortOn (·.1) members).map fun m => (m.1, m.2.reread)) key =
      (members.get? key).map reread := by
  have sorted : (((sortOn (·.1) members).map fun m => (m.1, m.2.reread)).map (·.1)).Nodup := by
    rw [List.map_map]
    exact ((sortOn_perm _ members).map _).nodup_iff.2 nodup
  refine Option.ext fun value => ?_
  rw [get?_eq_some sorted, Option.map_eq_some_iff]
  simp only [List.mem_map, mem_sortOn, Prod.mk.injEq, Prod.exists, get?_eq_some nodup]
  constructor
  · rintro ⟨_, v, mem, rfl, rfl⟩
    exact ⟨v, mem, rfl⟩
  · rintro ⟨v, mem, rfl⟩
    exact ⟨key, v, mem, rfl, rfl⟩

theorem memberOr_reread {α : Type} {members : Members} (nodup : (members.map (·.1)).Nodup)
    (key : String) (absent : Accepted α) (accept : Json → Accepted α) :
    memberOr ((sortOn (·.1) members).map fun m => (m.1, m.2.reread)) key absent accept =
      memberOr members key absent fun v => accept v.reread := by
  rw [memberOr, memberOr, get?_reread nodup]
  cases members.get? key <;> rfl

end Json

namespace FileRecord

/-- The record as it comes back from the file of the manifest. -/
def stored (r : FileRecord) : FileRecord :=
  { r with metadata := ((Json.object r.metadata).finite.reread.asObject?).getD [] }

theorem acceptObject_reread (members : Json.Members) :
    acceptObject (Json.object members).finite.reread =
      .ok (((Json.object members).finite.reread.asObject?).getD []) := by
  simp only [Json.finite, Json.reread]
  rfl

theorem acceptTextOrNull_reread (text : Option String) :
    acceptTextOrNull (Json.ofText? text).reread = .ok text := by
  cases text <;> rfl

/-- The members of a record's object. -/
def members (r : FileRecord) : Json.Members :=
  [("generated_at", .string r.generatedAt), ("content_hash", .ofText? r.contentHash),
    ("size_bytes", .int r.size), ("metadata", (Json.object r.metadata).finite)]

theorem nodup_members (r : FileRecord) : (r.members.map (·.1)).Nodup := by
  simp [members]

theorem ofJson_toJson (r : FileRecord) : ofJson r.toJson.reread = .ok r.stored := by
  have known : ((sortOn (·.1) r.members).map fun m => (m.1, m.2.reread)).filter
      (fun m => !memberNames.contains m.1) = [] := by
    rw [List.filter_eq_nil_iff, List.forall_mem_map]
    intro m mem
    have all : ∀ m ∈ r.members, m.1 ∈ memberNames := by simp [members, memberNames]
    simpa using all m (mem_sortOn.1 mem)
  have object : r.toJson = .object r.members := rfl
  rw [object, Json.reread_object r.nodup_members, ofJson, ofMembers, known]
  simp only [Json.memberOr_reread r.nodup_members]
  simp only [members, memberOr, Json.Members.get?, List.find?, String.reduceBEq, Option.map_some,
    Accepted.both, acceptText, Json.reread, Json.asText?, Accepted.ofOption,
    acceptTextOrNull_reread, acceptSize, Json.asWhole?,
    acceptObject_reread]
  rfl

end FileRecord

namespace Manifest

theorem all_eq_ok {α β : Type} {f : α → Accepted β} {g : α → β} {list : List α}
    (h : ∀ a ∈ list, f a = .ok (g a)) : Accepted.all (list.map f) = .ok (list.map g) := by
  induction list with
  | nil => rfl
  | cons a rest ih =>
    rw [List.map_cons, Accepted.all, h a (List.mem_cons_self ..), ih fun b mem =>
      h b (List.mem_cons_of_mem _ mem)]
    rfl

/-- A map as it comes back from its object. -/
def storedMap {α β : Type} (f : α → β) (map : OrderedMap α) : OrderedMap β :=
  .ofList ((sortOn (·.1) map.entries).map fun entry => (entry.1, f entry.2))

theorem entries_storedMap {α β : Type} (f : α → β) (map : OrderedMap α) :
    (storedMap f map).entries = (sortOn (·.1) map.entries).map fun entry =>
      (entry.1, f entry.2) := by
  refine OrderedMap.entries_ofList ?_
  rw [List.map_map]
  exact ((sortOn_perm _ map.entries).map _).nodup_iff.2 map.nodup_keys

/-- The object of a map is accepted when its values are. -/
theorem acceptMembers_reread {α β : Type} {accept : Json → Accepted β}
    {write : α → Json} {f : α → β} (each : ∀ a, accept (write a).reread = .ok (f a))
    (map : OrderedMap α) :
    acceptMembers accept
      (Json.object (map.entries.map fun entry => (entry.1, write entry.2))).reread =
      .ok (storedMap f map) := by
  have nodup : ((map.entries.map fun entry => (entry.1, write entry.2)).map (·.1)).Nodup := by
    rw [List.map_map]
    exact map.nodup_keys
  rw [Json.reread_object nodup, sortOn_map (·.1) (by simp), acceptMembers,
    List.map_map, List.map_map]
  have all := all_eq_ok
    (f := (fun m => (accept m.2).map fun a => (m.1, a)) ∘ (fun m => (m.1, m.2.reread)) ∘
      fun entry : String × α => (entry.1, write entry.2))
    (g := fun entry => (entry.1, f entry.2)) fun entry (_ : entry ∈ sortOn (·.1) map.entries) => by
      simp only [Function.comp, each]
      rfl
  exact congrArg (Except.map OrderedMap.ofList) all

/-- The manifest as it comes back from its file. -/
def stored (m : Manifest) : Manifest :=
  recount { m with
    snapshot :=
      m.snapshot.map fun members => ((Json.object members).finite.reread.asObject?).getD []
    buckets := withAllKinds (storedMap (storedMap FileRecord.stored) m.buckets) }

/-- The members of a manifest's object. -/
def members (m : Manifest) : Json.Members :=
  [("version", .string m.version), ("generated_at", .ofText? m.generatedAt),
    ("schema_hash", .ofText? m.schemaHash), ("schema_snapshot", match m.snapshot with
      | some members => (Json.object members).finite
      | none => .null),
    ("files", .object (m.buckets.entries.map fun entry =>
      (entry.1, .object (entry.2.entries.map fun entry => (entry.1, entry.2.toJson))))),
    ("total_file_count", .int m.count), ("generator_version", .string m.generatorVersion)]

theorem nodup_members (m : Manifest) : (m.members.map (·.1)).Nodup := by
  simp [members]

theorem files_reread (buckets : OrderedMap Bucket) :
    acceptMembers (acceptMembers FileRecord.ofJson) (Json.object (buckets.entries.map fun entry =>
      (entry.1, .object (entry.2.entries.map fun entry => (entry.1, entry.2.toJson))))).reread =
        .ok (storedMap (storedMap FileRecord.stored) buckets) :=
  acceptMembers_reread (acceptMembers_reread FileRecord.ofJson_toJson) buckets

/-- The manifest that the members of a saved one describe. -/
theorem ofMembers_toJson (m : Manifest) :
    ∃ members, m.toJson.reread = .object members ∧ ofMembers members = .ok m.stored := by
  have object : m.toJson = .object m.members := rfl
  refine ⟨_, by rw [object, Json.reread_object m.nodup_members], ?_⟩
  simp only [ofMembers, Json.memberOr_reread m.nodup_members]
  simp only [members, memberOr, Json.Members.get?, List.find?, String.reduceBEq, Option.map_some,
    FileRecord.acceptTextOrNull_reread, files_reread]
  obtain ⟨version, generatedAt, schemaHash, snapshot, buckets, count, generatorVersion⟩ := m
  cases snapshot with
  | none => rfl
  | some members =>
    simp only [Json.finite, Json.reread]
    rfl

/-- Adding the kinds that are missing leaves the records as they are. -/
theorem mem_withAllKinds {buckets : OrderedMap Bucket} {kind : String} {x : String × FileRecord} :
    (∃ bucket, (kind, bucket) ∈ (withAllKinds buckets).entries ∧ x ∈ bucket.entries) ↔
      ∃ bucket, (kind, bucket) ∈ buckets.entries ∧ x ∈ bucket.entries := by
  have fold : ∀ (kinds : List ArtifactKind) (buckets : OrderedMap Bucket),
      (∃ bucket, (kind, bucket) ∈ (kinds.foldl (fun buckets kind =>
          if buckets.has kind.name then buckets
          else buckets.insert kind.name .empty) buckets).entries ∧ x ∈ bucket.entries) ↔
        ∃ bucket, (kind, bucket) ∈ buckets.entries ∧ x ∈ bucket.entries := by
    intro kinds
    induction kinds with
    | nil => exact fun _ => Iff.rfl
    | cons next rest ih =>
      intro buckets
      rw [List.foldl_cons, ih]
      split
      · exact Iff.rfl
      · rename_i missing
        have fresh : next.name ∉ buckets.entries.map (·.1) :=
          fun mem => missing (OrderedMap.has_iff_mem_keys.2 mem)
        have added :
          (buckets.insert next.name .empty).entries = buckets.entries ++ [(next.name, .empty)] :=
          OrderedMap.setIn_of_not_mem fresh _
        simp only [added, List.mem_append, List.mem_singleton, Prod.mk.injEq]
        constructor
        · rintro ⟨bucket, isBucket | ⟨-, rfl⟩, mem⟩
          · exact ⟨bucket, isBucket, mem⟩
          · exact absurd mem List.not_mem_nil
        · rintro ⟨bucket, isBucket, mem⟩
          exact ⟨bucket, .inl isBucket, mem⟩
  exact fold ArtifactKind.all buckets

theorem mem_storedMap {α β : Type} {f : α → β} {map : OrderedMap α} {key : String} {b : β} :
    (key, b) ∈ (storedMap f map).entries ↔ ∃ a, (key, a) ∈ map.entries ∧ b = f a := by
  rw [entries_storedMap, List.mem_map]
  constructor
  · rintro ⟨entry, mem, eq⟩
    obtain ⟨rfl, rfl⟩ := Prod.mk.inj eq
    exact ⟨entry.2, mem_sortOn.1 mem, rfl⟩
  · rintro ⟨a, mem, rfl⟩
    exact ⟨(key, a), mem_sortOn.2 mem, rfl⟩

/-- The records that come back from the file of a manifest. -/
theorem mem_records_stored {m : Manifest} {kind path : String} {record : FileRecord} :
    (kind, path, record) ∈ m.stored.records ↔ ∃ saved, (kind, path, saved) ∈ m.records ∧
    record = saved.stored := by
  have buckets :
      m.stored.buckets = withAllKinds (storedMap (storedMap FileRecord.stored) m.buckets) := by
    simp only [stored, recount]
  rw [mem_records, buckets, mem_withAllKinds]
  simp only [mem_records, mem_storedMap]
  constructor
  · rintro ⟨_, ⟨bucket, isBucket, rfl⟩, isRecord⟩
    obtain ⟨saved, mem, rfl⟩ := mem_storedMap.1 isRecord
    exact ⟨saved, ⟨bucket, isBucket, mem⟩, rfl⟩
  · rintro ⟨saved, ⟨bucket, isBucket, mem⟩, rfl⟩
    exact ⟨_, ⟨bucket, isBucket, rfl⟩, mem_storedMap.2 ⟨saved, mem, rfl⟩⟩

theorem mem_trackedPaths_stored {m : Manifest} {path : String} :
    path ∈ m.stored.trackedPaths ↔ path ∈ m.trackedPaths := by
  simp only [mem_trackedPaths, Prod.exists, mem_records_stored]
  constructor
  · rintro ⟨kind, _, _, ⟨saved, mem, rfl⟩, rfl⟩
    exact ⟨kind, _, saved, mem, rfl⟩
  · rintro ⟨kind, _, saved, mem, rfl⟩
    exact ⟨kind, _, _, ⟨saved, mem, rfl⟩, rfl⟩

end Manifest

theorem Text.Utf8.decode_toUTF8 (text : String) : decode text.toUTF8 = .ok text := by
  have valid : String.fromUTF8? text.toUTF8 = some text := by
    rw [String.toUTF8_eq_toByteArray, String.fromUTF8?, dif_pos text.isValidUTF8]
    rfl
  rw [decode, valid]

namespace Store

variable {store : Store} {m : Manifest} {p : Project}

/-- The manifest that the bytes of its file describe. -/
def parsed (store : Store) (bytes : ByteArray) : Except Interruption Manifest :=
  match Json.objectOfBytes bytes with
  | .ok members =>
    (Manifest.ofMembers members).mapError fun count =>
      .corrupt store.manifestPath (.violations count)
  | .error (.numeral e) => .error (.numeral e)
  | .error e => .error (.corrupt store.manifestPath (.document e))

theorem parsed_indented (store : Store) (printable : m.toJson.isPrintable) :
    store.parsed m.toJson.indented.toUTF8 = .ok m.stored := by
  obtain ⟨members, object, accepted⟩ := m.ofMembers_toJson
  have document : Json.objectOfBytes m.toJson.indented.toUTF8 = .ok members := by
    simp only [Json.objectOfBytes, Text.Utf8.decode_toUTF8, Json.objectOfText,
      Json.read_indented printable, object]
  simp only [parsed, document, accepted]
  rfl

theorem printed_eq_ok {json : Json} {text : String} :
    printed json = .ok text ↔ json.isPrintable ∧ text = json.indented := by
  rw [printed]
  split
  · rename_i printable
    simp [printable, eq_comm]
  · rename_i refused
    simp [refused]

/-- An entry of the history can be printed when its manifest can. -/
theorem isPrintable_historyEntry {now : Moment} (printable : m.toJson.isPrintable = true) :
    (historyEntry m now).isPrintable = true := by
  have hash : (Json.ofText? m.schemaHash).isPrintable = true := by cases m.schemaHash <;> rfl
  simp [historyEntry, Json.isPrintable, Json.membersPrintable, printable, hash]

end Store
end Scaffold
