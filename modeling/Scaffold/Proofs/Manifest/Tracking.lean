import Scaffold.Proofs.Manifest.Loading
import Scaffold.Proofs.Project.Effects

/-!
# What a manifest tracks

A path that is tracked has one record, and removing paths takes out their records only. A manifest
is `Manifest.Faithful` about a path when the record says what the file holds. What was saved is
loaded with the same records: `Store.load_of_stands`.
-/

namespace Scaffold
set_option autoImplicit false

namespace Manifest

variable {m : Manifest} {kind path : String} {record : FileRecord}

theorem mem_getD_get? {buckets : OrderedMap Bucket} {x : String × FileRecord} :
    x ∈ ((buckets.get? kind).getD .empty).entries ↔ ∃ bucket, (kind, bucket) ∈ buckets.entries ∧
    x ∈ bucket.entries := by
  cases found : buckets.get? kind with
  | none =>
    refine iff_of_false (by simp [OrderedMap.empty]) ?_
    rintro ⟨bucket, mem, -⟩
    cases (found.symm.trans (OrderedMap.get?_eq_some.2 mem))
  | some bucket =>
    constructor
    · exact fun mem => ⟨bucket, OrderedMap.mem_of_get? found, mem⟩
    · rintro ⟨other, isBucket, mem⟩
      obtain rfl := Option.some.inj (found.symm.trans (OrderedMap.get?_eq_some.2 isBucket))
      exact mem

theorem mem_records_upsert {r : String × String × FileRecord} :
    r ∈ (m.upsert kind path record).records ↔ r = (kind, path, record) ∨ r ∈ m.records ∧
    ¬ (r.1 = kind ∧ r.2.1 = path) := by
  obtain ⟨otherKind, other, record'⟩ := r
  simp only [mem_records, upsert, recount, OrderedMap.mem_insert, Prod.mk.injEq]
  constructor
  · rintro ⟨bucket, ⟨rfl, rfl⟩ | ⟨isBucket, apart⟩, mem⟩
    · rcases OrderedMap.mem_insert.1 mem with eq | ⟨mem, apart⟩
      · exact .inl ⟨rfl, Prod.mk.inj eq⟩
      · exact .inr ⟨mem_getD_get?.1 mem, fun same => apart same.2⟩
    · exact .inr ⟨⟨bucket, isBucket, mem⟩, fun same => apart same.1⟩
  · rintro (⟨rfl, rfl, rfl⟩ | ⟨⟨bucket, isBucket, mem⟩, apart⟩)
    · exact ⟨_, .inl ⟨rfl, rfl⟩, OrderedMap.mem_insert.2 (.inl rfl)⟩
    · by_cases here : otherKind = kind
      · subst here
        refine ⟨_, .inl ⟨rfl, rfl⟩,
          OrderedMap.mem_insert.2 (.inr ⟨mem_getD_get?.2 ⟨bucket, isBucket, mem⟩, ?_⟩)⟩
        exact fun same => apart ⟨rfl, same⟩
      · exact ⟨bucket, .inr ⟨isBucket, here⟩, mem⟩

/-- A path that is tracked has the new record and no other. -/
theorem mem_records_track {r : String × String × FileRecord} :
    r ∈ (m.track kind path record).records ↔ r = (kind, path, record) ∨ r ∈ m.records ∧
    r.2.1 ≠ path := by
  rw [track, mem_records_upsert]
  refine or_congr_right ?_
  obtain ⟨otherKind, other, record'⟩ := r
  simp only [mem_records, List.mem_map]
  constructor
  · rintro ⟨⟨bucket, ⟨entry, isEntry, eq⟩, mem⟩, apart⟩
    split at eq
    · rename_i here
      subst eq
      exact ⟨⟨bucket, isEntry, mem⟩, fun same => apart ⟨here, same⟩⟩
    · obtain ⟨rfl, rfl⟩ := Prod.mk.inj eq
      obtain ⟨mem, apart⟩ := List.mem_filter.1 mem
      exact ⟨⟨entry.2, isEntry, mem⟩, by simpa using apart⟩
  · rintro ⟨⟨bucket, isBucket, mem⟩, apart⟩
    refine ⟨?_, fun same => apart same.2⟩
    by_cases here : otherKind = kind
    · exact ⟨bucket, ⟨_, isBucket, if_pos here⟩, mem⟩
    · exact ⟨_, ⟨_, isBucket, if_neg here⟩, List.mem_filter.2 ⟨mem, by simpa using apart⟩⟩

/-- The record of a path says what stands there. -/
structure Faithful (m : Manifest) (p : Project) (path : String) (content : ByteArray) : Prop where
  stands : p.Stands path content
  tracked : path ∈ m.trackedPaths
  records : ∀ r ∈ m.records, r.2.1 = path →
    r.2.2.contentHash = some (Digest.ofBytes content) ∧ r.2.2.size = content.size

/-- Tracking another path keeps a record faithful while its file is not touched. -/
theorem Faithful.track {p p' : Project} {content : ByteArray} {touched : List String → Prop}
    {other : String} (h : m.Faithful p path content) (changed : Project.Touches touched p p')
    (spared : ¬ touched (namesOf path))
    (apart : path ≠ other) : (m.track kind other record).Faithful p' path content where
  stands := h.stands.of_touches changed spared
  tracked := by
    obtain ⟨r, isRecord, rfl⟩ := mem_trackedPaths.1 h.tracked
    exact mem_trackedPaths.2 ⟨r, mem_records_track.2 (.inr ⟨isRecord, apart⟩), rfl⟩
  records r isRecord here := by
    rcases mem_records_track.1 isRecord with rfl | ⟨isRecord, -⟩
    · exact absurd here.symm apart
    · exact h.records r isRecord here

/-- Removing another path keeps a record faithful. -/
theorem Faithful.remove {p : Project} {content : ByteArray} {other : String}
    (h : m.Faithful p path content) (apart : path ≠ other) :
    (m.remove other).2.Faithful p path content where
  stands := h.stands
  tracked := by
    obtain ⟨r, isRecord, rfl⟩ := mem_trackedPaths.1 h.tracked
    exact mem_trackedPaths.2 ⟨r, mem_records_remove.2 ⟨isRecord, apart⟩, rfl⟩
  records r isRecord here := h.records r (mem_records_remove.1 isRecord).1 here

/-- A file is recorded as it stands. -/
theorem faithful_of_trackFile {p : Project} {content : ByteArray} {metadata : Json.Members}
    {now : Moment} {after : Manifest} (stands : p.Stands path content)
    (h : m.trackFile p kind path metadata now = .ok (record, after)) :
    after = m.track kind path record ∧ after.Faithful p path content := by
  obtain ⟨record', made, eq⟩ := map_eq_ok.1 h
  obtain ⟨rfl, rfl⟩ := Prod.mk.inj eq
  have read : p.read path = .ok content := by
    rcases p.permit_cases .read path with permitted | ⟨f, denied⟩
    · exact Project.read_of_stands stands permitted
    · simp [FileRecord.ofFile, Project.fileExists_of_stands stands, Project.read, denied, bind,
        Except.bind] at made
  simp only [FileRecord.ofFile, Project.fileExists_of_stands stands, read, bind, Except.bind,
    if_true] at made
  obtain rfl := Except.ok.inj made
  refine ⟨rfl, stands, mem_trackedPaths.2 ⟨_, mem_records_track.2 (.inl rfl), rfl⟩, ?_⟩
  intro r isRecord here
  rcases mem_records_track.1 isRecord with rfl | ⟨-, apart⟩
  · exact ⟨rfl, rfl⟩
  · exact absurd here apart

/-- What is there and is recorded is a file. -/
theorem stands_of_trackFile {p : Project} {metadata : Json.Members} {now : Moment}
    {after : Manifest} (found : p.fileExists path = .ok true)
    (h : m.trackFile p kind path metadata now = .ok (record, after)) :
    ∃ content, p.Stands path content := by
  obtain ⟨record', made, -⟩ := map_eq_ok.1 h
  cases read : p.read path with
  | error e => simp [FileRecord.ofFile, found, read, bind, Except.bind] at made
  | ok content => exact ⟨content, (Project.stands_of_read read).1⟩

/-- A saved record is as faithful as the one before. -/
theorem Faithful.stored {p : Project} {content : ByteArray} (h : m.Faithful p path content) :
    m.stored.Faithful p path content where
  stands := h.stands
  tracked := mem_trackedPaths_stored.2 h.tracked
  records r isRecord here := by
    obtain ⟨otherKind, other, record⟩ := r
    obtain ⟨saved, mem, rfl⟩ := mem_records_stored.1 isRecord
    exact h.records (otherKind, other, saved) mem here

/-- Only what stands at the tracked paths counts for what is obsolete. -/
theorem obsolete_eq_nil {s : Schema} :
    m.obsolete s = [] ↔ ∀ path ∈ m.trackedPaths, Pattern.anyCovers s.requiredArtifacts path := by
  simp [List.eq_nil_iff_forall_not_mem, mem_obsolete]

end Manifest

namespace Store

variable {store : Store} {m : Manifest} {p : Project}

/-- A manifest is loaded from what stands at its path. -/
theorem load_of_stands {bytes : ByteArray} (h : p.Stands store.manifestPath bytes)
    (permitted : p.permit .read store.manifestPath = .ok ()) :
    store.load p = store.parsed bytes := by
  simp only [load, Project.fileExists_of_stands h, Project.read_of_stands h permitted, bind,
    Except.bind, if_true, parsed]
  cases Json.objectOfBytes bytes with
  | ok members => rfl
  | error e => cases e <;> rfl

/-- A manifest that is loaded is a new one where there is no file, or what its file describes. -/
theorem load_eq_ok (h : store.load p = .ok m) :
    (p.fileExists store.manifestPath = .ok false ∧ m = {}) ∨
    ∃ bytes, p.Stands store.manifestPath bytes ∧ store.parsed bytes = .ok m := by
  cases exists_ : p.fileExists store.manifestPath with
  | error e => simp [load, exists_, bind, Except.bind] at h
  | ok found =>
    cases found with
    | false =>
      exact .inl ⟨rfl, by
        simpa [load, exists_, bind, Except.bind, pure, Except.pure, eq_comm] using h⟩
    | true =>
      cases read : p.read store.manifestPath with
      | error e => simp [load, exists_, read, bind, Except.bind] at h
      | ok bytes =>
        obtain ⟨stands, permitted⟩ := Project.stands_of_read read
        exact .inr ⟨bytes, stands, by rw [← load_of_stands stands permitted, h]⟩

/-- A manifest that was saved stands at its path. -/
theorem stands_of_save {after : Project} (named : namesOf store.manifestPath ≠ [])
    (h : store.save m p = (.ok (), after)) : ∃ bytes, after.Stands store.manifestPath bytes ∧
    store.parsed bytes = .ok m.recount.stored := by
  unfold save at h
  split at h
  · cases (Prod.mk.inj h).1
  · rename_i text printed
    obtain ⟨printable, rfl⟩ := printed_eq_ok.1 printed
    cases written : p.writeText store.manifestPath m.recount.toJson.indented with
    | mk outcome between =>
      rw [written] at h
      cases outcome with
      | error e => cases (Prod.mk.inj h).1
      | ok size =>
        obtain ⟨-, rfl⟩ := Prod.mk.inj h
        exact ⟨_, Project.stands_of_write named written, store.parsed_indented printable⟩

theorem touches_save (store : Store) (m : Manifest) (p : Project) :
    Project.Touches (· = namesOf store.manifestPath) p (store.save m p).2 := by
  unfold save
  split
  · exact .refl _ p
  · rename_i text _
    have changed := p.touches_write store.manifestPath text.toUTF8
    rw [← Project.writeText] at changed
    cases written : p.writeText store.manifestPath text with
    | mk outcome after =>
      rw [written] at changed
      cases outcome <;> exact changed

theorem touches_save_of_error {e : Interruption} {after : Project}
    (h : store.save m p = (.error e, after)) : Project.Touches (fun _ => False) p after := by
  unfold save at h
  split at h
  · obtain ⟨-, rfl⟩ := Prod.mk.inj h
    exact .refl _ _
  · rename_i text _
    cases written : p.writeText store.manifestPath text with
    | mk outcome between =>
      rw [written] at h
      cases outcome with
      | ok size => cases (Prod.mk.inj h).1
      | error e =>
        obtain ⟨-, rfl⟩ := Prod.mk.inj h
        exact Project.touches_write_of_error written

end Store
end Scaffold
