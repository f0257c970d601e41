import Scaffold.Proofs.Json.Decoding
import Scaffold.Proofs.Manifest.Tracking

/-!
# Saving and loading

A manifest that was saved is loaded as it was, but for the order of the members of its objects: the
same bookkeeping, the same record under each kind and path, and documents that are alike. The main
statement is `Store.load_save`.
-/

namespace Scaffold
set_option autoImplicit false

namespace Json

mutual

/-- Whether all numbers in a value are finite. -/
def isFinite : Json → Bool
  | float value => value.isFinite
  | array items => areFinite items
  | object members => membersFinite members
  | _ => true

def areFinite : List Json → Bool
  | [] => true
  | item :: items => isFinite item && areFinite items

def membersFinite : List (String × Json) → Bool
  | [] => true
  | (_, value) :: members => isFinite value && membersFinite members

end

mutual

/-- A value without infinite numbers is stored as it is. -/
theorem finite_eq_self : ∀ (v : Json), v.isFinite → v.finite = v
  | .null, _ | .bool _, _ | .int _, _ | .string _, _ => rfl
  | .float _, finite => if_pos finite
  | .array items, finite => congrArg array (finiteItems_eq_self items finite)
  | .object members, finite => congrArg object (finiteMembers_eq_self members finite)

theorem finiteItems_eq_self : ∀ (items : List Json), areFinite items → finiteItems items = items
  | [], _ => rfl
  | item :: items, finite => by
    rw [areFinite, Bool.and_eq_true] at finite
    rw [finiteItems, finite_eq_self item finite.1, finiteItems_eq_self items finite.2]

theorem finiteMembers_eq_self :
    ∀ (members : List (String × Json)), membersFinite members → finiteMembers members = members
  | [], _ => rfl
  | (name, v) :: members, finite => by
    rw [membersFinite, Bool.and_eq_true] at finite
    rw [finiteMembers, finite_eq_self v finite.1, finiteMembers_eq_self members finite.2]

end

/-- A value of a document without infinite numbers. -/
structure IsProper (v : Json) : Prop where
  sound : v.isSound = true
  finite : v.isFinite = true

/-- The members of an object as they come back from a file are alike. -/
theorem alike_stored {members : Members} (proper : IsProper (.object members)) :
    (object members).alike
      (.object (((object members).finite.reread.asObject?).getD [])) = true := by
  have sorted := reread_eq_sorted _ proper.sound
  rw [finite_eq_self _ proper.finite, sorted]
  exact alike_sorted proper.sound

end Json

/-- Records with the same text and size, and notes that are alike. -/
structure FileRecord.Alike (r other : FileRecord) : Prop where
  generatedAt : other.generatedAt = r.generatedAt
  contentHash : other.contentHash = r.contentHash
  size : other.size = r.size
  metadata : (Json.object r.metadata).alike (.object other.metadata) = true

namespace Manifest

/-- The record of a path in the bucket of a kind. -/
def recordIn? (m : Manifest) (kind path : String) : Option FileRecord :=
  (m.buckets.get? kind).bind fun bucket => bucket.get? path

/-- The documents in a manifest have finite numbers only. -/
structure IsProper (m : Manifest) : Prop where
  snapshot : ∀ document ∈ m.snapshot, Json.IsProper (.object document)
  metadata : ∀ r ∈ m.records, Json.IsProper (.object r.2.2.metadata)

/-- Manifests that are equal but for the order of members, whatever number of records they name. -/
structure Alike (m other : Manifest) : Prop where
  version : other.version = m.version
  generatedAt : other.generatedAt = m.generatedAt
  schemaHash : other.schemaHash = m.schemaHash
  generatorVersion : other.generatorVersion = m.generatorVersion
  snapshot :
    Option.Rel (fun a b => (Json.object a).alike (.object b) = true) m.snapshot other.snapshot
  records :
    ∀ kind path, Option.Rel FileRecord.Alike (m.recordIn? kind path) (other.recordIn? kind path)

variable {m : Manifest}

theorem recordIn?_eq_some {kind path : String} {record : FileRecord} :
    m.recordIn? kind path = some record ↔ (kind, path, record) ∈ m.records := by
  rw [recordIn?, Option.bind_eq_some_iff, mem_records]
  simp only [OrderedMap.get?_eq_some]

theorem has_withAllKinds {buckets : OrderedMap Bucket} {kind : String} :
    (withAllKinds buckets).has kind = true ↔ buckets.has kind = true ∨
    kind ∈ ArtifactKind.all.map (·.name) := by
  have fold : ∀ (kinds : List ArtifactKind) (buckets : OrderedMap Bucket),
      kind ∈ (kinds.foldl (fun buckets kind =>
          if buckets.has kind.name then buckets
          else buckets.insert kind.name .empty) buckets).keys ↔
        kind ∈ buckets.keys ∨ kind ∈ kinds.map (·.name) := by
    intro kinds
    induction kinds with
    | nil => simp
    | cons next rest ih =>
      intro buckets
      rw [List.foldl_cons, ih, List.map_cons, List.mem_cons]
      split
      · rename_i there
        constructor
        · exact Or.imp_right .inr
        · rintro (mem | rfl | mem)
          · exact .inl mem
          · exact .inl (OrderedMap.has_iff_mem_keys.1 there)
          · exact .inr mem
      · rename_i missing
        have fresh : next.name ∉ buckets.keys := mt OrderedMap.has_iff_mem_keys.2 missing
        rw [OrderedMap.keys_insert, if_neg fresh, List.mem_append, List.mem_singleton, or_assoc]
  rw [OrderedMap.has_iff_mem_keys, OrderedMap.has_iff_mem_keys]
  exact fold ArtifactKind.all buckets

theorem has_storedMap {α β : Type} {f : α → β} {map : OrderedMap α} {key : String} :
    (storedMap f map).has key = true ↔ map.has key = true := by
  rw [OrderedMap.has_iff_mem_keys, OrderedMap.has_iff_mem_keys, OrderedMap.keys, OrderedMap.keys,
    entries_storedMap, List.map_map]
  exact ((sortOn_perm _ map.entries).map _).mem_iff

theorem IsProper.recount (proper : m.IsProper) : m.recount.IsProper where
  snapshot := proper.snapshot
  metadata := proper.metadata

/-- Counting the records anew changes nothing else. -/
theorem Alike.of_recount {other : Manifest} (h : m.recount.Alike other) : m.Alike other where
  version := h.version
  generatedAt := h.generatedAt
  schemaHash := h.schemaHash
  generatorVersion := h.generatorVersion
  snapshot := h.snapshot
  records := h.records

/-- What comes back from the file of a manifest is like it. -/
theorem alike_stored (proper : m.IsProper) : m.Alike m.stored where
  version := rfl
  generatedAt := rfl
  schemaHash := rfl
  generatorVersion := rfl
  snapshot := by
    have all := proper.snapshot
    obtain ⟨version, generatedAt, schemaHash, snapshot, buckets, count, generatorVersion⟩ := m
    cases snapshot with
    | none => exact .none
    | some document => exact .some (Json.alike_stored (all document rfl))
  records kind path := by
    cases found : m.recordIn? kind path with
    | none =>
      cases back : m.stored.recordIn? kind path with
      | none => exact .none
      | some record =>
        obtain ⟨saved, mem, -⟩ := mem_records_stored.1 (recordIn?_eq_some.1 back)
        cases (found.symm.trans (recordIn?_eq_some.2 mem))
    | some record =>
      have mem := recordIn?_eq_some.1 found
      rw [recordIn?_eq_some.2 (mem_records_stored.2 ⟨record, mem, rfl⟩)]
      exact .some ⟨rfl, rfl, rfl, Json.alike_stored (proper.metadata _ mem)⟩

/-- How many records a list of buckets has. -/
def sizeOf (buckets : OrderedMap Bucket) : Nat :=
  (buckets.entries.map fun entry => entry.2.entries.length).sum

theorem length_records (m : Manifest) : m.records.length = sizeOf m.buckets := by
  simp [records, sizeOf, List.length_flatMap]

theorem sizeOf_withAllKinds (buckets : OrderedMap Bucket) :
    sizeOf (withAllKinds buckets) = sizeOf buckets := by
  have fold : ∀ (kinds : List ArtifactKind) (buckets : OrderedMap Bucket),
      sizeOf (kinds.foldl (fun buckets kind =>
        if buckets.has kind.name then buckets else buckets.insert kind.name .empty) buckets) =
            sizeOf buckets := by
    intro kinds
    induction kinds with
    | nil => exact fun _ => rfl
    | cons next rest ih =>
      intro buckets
      rw [List.foldl_cons, ih]
      split
      · rfl
      · rename_i missing
        have fresh : next.name ∉ buckets.entries.map (·.1) :=
          fun mem => missing (OrderedMap.has_iff_mem_keys.2 mem)
        have added :
          (buckets.insert next.name .empty).entries = buckets.entries ++ [(next.name, .empty)] :=
          OrderedMap.setIn_of_not_mem fresh _
        rw [sizeOf, added]
        simp [sizeOf, OrderedMap.empty]
  exact fold ArtifactKind.all buckets

theorem length_entries_storedMap {α β : Type} (f : α → β) (map : OrderedMap α) :
    (storedMap f map).entries.length = map.entries.length := by
  rw [entries_storedMap, List.length_map, (sortOn_perm _ map.entries).length_eq]

theorem count_recount (m : Manifest) : m.recount.count = m.recount.records.length := rfl

/-- What comes back has its records counted. -/
theorem count_stored (m : Manifest) : m.stored.count = m.stored.records.length := by
  rw [stored]
  exact count_recount _

/-- No record is lost in the file, and none comes in. -/
theorem length_records_stored (m : Manifest) : m.stored.records.length = m.records.length := by
  have buckets :
      m.stored.buckets = withAllKinds (storedMap (storedMap FileRecord.stored) m.buckets) := by
    simp only [stored, recount]
  have lengths : ((sortOn (·.1) m.buckets.entries).map fun entry => entry.2.entries.length).Perm
      (m.buckets.entries.map fun entry => entry.2.entries.length) :=
        (sortOn_perm _ m.buckets.entries).map _
  rw [length_records, length_records, buckets, sizeOf_withAllKinds, sizeOf,
    entries_storedMap, List.map_map]
  simpa [Function.comp_def, length_entries_storedMap, sizeOf] using lengths.sum_nat

end Manifest

/-- A project without files. -/
def newProject : Project := { disk := Disk.blank, root := Path.ofText "project" }

namespace Store

variable {store : Store} {m : Manifest} {p : Project}

/-- A manifest is saved when its text can be printed and written. -/
theorem save_eq_ok : (store.save m p).1 = .ok () ↔
    m.recount.toJson.isPrintable = true ∧
    ∃ size, (p.writeText store.manifestPath m.recount.serialized).1 = .ok size := by
  unfold save
  split
  · rename_i e refused
    refine iff_of_false nofun ?_
    rintro ⟨printable, -⟩
    cases (refused.symm.trans (printed_eq_ok.2 ⟨printable, rfl⟩))
  · rename_i text printed
    obtain ⟨printable, rfl⟩ := printed_eq_ok.1 printed
    rw [and_iff_right printable, Manifest.serialized]
    cases written : p.writeText store.manifestPath m.recount.toJson.indented with
    | mk outcome after => cases outcome <;> simp

/-- Saving succeeds when the text can be printed and written, and what was saved is loaded: the
manifest as it was, but for the order of members, with its records counted and a bucket for every
kind. -/
theorem load_save (proper : m.IsProper) (named : namesOf store.manifestPath ≠ []) :
    ((store.save m p).1 = .ok () ↔ m.recount.toJson.isPrintable = true ∧
      ∃ size, (p.writeText store.manifestPath m.recount.serialized).1 = .ok size) ∧
    ∀ after, store.save m p = (.ok (), after) → after.permit .read store.manifestPath = .ok () →
      ∃ loaded, store.load after = .ok loaded ∧ m.Alike loaded ∧
        loaded.count = loaded.records.length ∧ loaded.records.length = m.records.length ∧
        ∀ kind, loaded.buckets.has kind = true ↔
          m.buckets.has kind = true ∨ kind ∈ ArtifactKind.all.map (·.name) := by
  refine ⟨save_eq_ok, fun after saved permitted => ?_⟩
  obtain ⟨bytes, stands, parsed⟩ := stands_of_save named saved
  refine ⟨m.recount.stored,
    by rw [load_of_stands stands permitted, parsed],
    (Manifest.alike_stored proper.recount).of_recount,
    ?_, ?_, fun kind => ?_⟩
  · exact m.recount.count_stored
  · exact m.recount.length_records_stored
  · have buckets : m.recount.stored.buckets =
        Manifest.withAllKinds
          (Manifest.storedMap (Manifest.storedMap FileRecord.stored) m.buckets) := by
      simp only [Manifest.stored, Manifest.recount]
    rw [buckets, Manifest.has_withAllKinds, Manifest.has_storedMap]

/-- A manifest with one record, in which some members are not in the order of their names. -/
def sample : Manifest :=
  let record : FileRecord := ⟨"noon", none, 3, [("fields", .int 2), ("entity", .string "Tag")]⟩
  ({ snapshot := some [("models", .object []), ("meta", .null)] } : Manifest).track "models"
    "app/Models/Tag.php" record

/-- The manifest is saved and loaded. -/
theorem load_save_sample : ∃ after loaded, ({} : Store).save sample newProject = (.ok (), after) ∧
    ({} : Store).load after = .ok loaded ∧ sample.Alike loaded ∧
    loaded.records.length = sample.records.length := by
  have proper : sample.IsProper := by
    refine ⟨?_, ?_⟩
    · rintro _ ⟨⟩
      exact ⟨by decide, by decide⟩
    · have all : sample.records.all (fun r => (Json.object r.2.2.metadata).isSound &&
          (Json.object r.2.2.metadata).isFinite) := by
        decide +kernel
      intro r mem
      have both := List.all_eq_true.1 all r mem
      rw [Bool.and_eq_true] at both
      exact ⟨both.1, both.2⟩
  have named : namesOf ({} : Store).manifestPath ≠ [] := by decide +kernel
  have checked : succeeds (({} : Store).save sample newProject).1
      (fun _ => (({} : Store).save sample newProject).2.denials.isEmpty) = true := by decide +kernel
  obtain ⟨⟨⟩, done, free⟩ := succeeds_eq_true.1 checked
  have saved : ({} : Store).save sample newProject =
    (.ok (), (({} : Store).save sample newProject).2) := Prod.fst_eq_iff.1 done
  have permitted :
      (({} : Store).save sample newProject).2.permit .read ({} : Store).manifestPath = .ok () := by
    rw [Project.permit, List.isEmpty_iff.1 free]
    rfl
  obtain ⟨loaded, found, alike, -, kept, -⟩ := (load_save proper named).2 _ saved permitted
  exact ⟨_, loaded, saved, found, alike, kept⟩

end Store
end Scaffold
