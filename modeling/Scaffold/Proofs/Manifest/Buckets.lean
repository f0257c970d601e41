import Scaffold.Proofs.Manifest.Removing
import Scaffold.Proofs.Manifest.RoundTrip

/-!
# The buckets of a manifest

A manifest is loaded, and then files are tracked, paths removed and obsolete files cleaned up.
Whatever the order, and whatever files each of these finds, the number in the manifest stays that of
its records, and no two buckets come to share a path: `Manifest.keeps_buckets`.
-/

namespace Scaffold
set_option autoImplicit false

/-- What a record says of the file at a path: its digest and size, or that there was none. -/
inductive FileRecord.Tells (record : FileRecord) (p : Project) (path : String) : Prop where
  | absent (missing : p.fileExists path = .ok false) (hash : record.contentHash = none)
      (size : record.size = 0)
  | present (content : ByteArray) (read : p.read path = .ok content)
      (stands : p.Stands path content) (hash : record.contentHash = some (Digest.ofBytes content))
      (size : record.size = content.size)

namespace Manifest

/-- What is done with a manifest. -/
inductive Update where
  | load (store : Store)
  | track (kind path : String) (metadata : Json.Members) (now : Moment)
  | remove (path : String)
  | cleanup (s : Schema)

/-- The manifest after an update, with the files of a project as they are then. Where a manifest
cannot be loaded or a file cannot be tracked it stays as it was; a cleanup that is interrupted has
removed some records. -/
def updated (m : Manifest) (p : Project) : Update → Manifest
  | .load store =>
    match store.load p with
    | .ok loaded => loaded
    | .error _ => m
  | .track kind path metadata now =>
    match m.trackFile p kind path metadata now with
    | .ok (_, left) => left
    | .error _ => m
  | .remove path => (m.remove path).2
  | .cleanup s => (m.cleanup s p).2.1

/-- The manifest after updates one after another. -/
def updatedAll (m : Manifest) (updates : List (Project × Update)) : Manifest :=
  updates.foldl (fun m step => m.updated step.1 step.2) m

/-- The number in the manifest is that of its records. -/
def IsCounted (m : Manifest) : Prop := m.count = m.records.length

/-- No path stands in two buckets. -/
def IsSorted (m : Manifest) : Prop :=
  ∀ r ∈ m.records, ∀ other ∈ m.records, r.2.1 = other.2.1 → r.1 = other.1

variable {m : Manifest} {p : Project}

theorem IsCounted.removeAll (counted : m.IsCounted) (paths : List String) :
    (m.removeAll paths).IsCounted := by
  induction paths generalizing m with
  | nil => exact counted
  | cons path rest ih => exact ih rfl

theorem IsSorted.of_subset {other : Manifest} (sorted : m.IsSorted)
    (within : ∀ r ∈ other.records, r ∈ m.records) :
    other.IsSorted := fun r mem r' mem' => sorted r (within r mem) r' (within r' mem')

theorem IsSorted.track {kind path : String} {record : FileRecord} (sorted : m.IsSorted) :
    (m.track kind path record).IsSorted := by
  intro r mem r' mem' same
  rcases mem_records_track.1 mem with rfl | ⟨mem, apart⟩ <;>
    rcases mem_records_track.1 mem' with rfl | ⟨mem', apart'⟩
  · rfl
  · exact absurd same.symm apart'
  · exact absurd same apart
  · exact sorted r mem r' mem' same

theorem isCounted_cleanup (counted : m.IsCounted) (s : Schema) (p : Project) :
    (m.cleanup s p).2.1.IsCounted := by
  obtain ⟨removed, -, left | left, -⟩ := m.removed_cleanup s p
  · rw [left]
    exact counted.removeAll removed
  · rw [left]
    exact count_recount _

/-- What a file describes is counted when it is loaded, whatever number stands in the file. -/
theorem isCounted_load {store : Store} (h : store.load p = .ok m) : m.IsCounted := by
  rcases Store.load_eq_ok h with ⟨-, rfl⟩ | ⟨bytes, -, parsed⟩
  · rfl
  · unfold Store.parsed at parsed
    split at parsed
    · rename_i members _
      cases accepted : ofMembers members with
      | error count => rw [accepted] at parsed; cases parsed
      | ok found =>
        rw [accepted] at parsed
        obtain rfl := Except.ok.inj parsed
        obtain ⟨_, -, rfl⟩ := map_eq_ok.1 accepted
        exact count_recount _
    · cases parsed
    · cases parsed

/-- An update keeps the records counted. -/
theorem IsCounted.updated (counted : m.IsCounted) (update : Update) :
    (m.updated p update).IsCounted := by
  cases update with
  | load store =>
    dsimp only [Manifest.updated]
    split
    · rename_i loaded loading
      exact isCounted_load loading
    · exact counted
  | track kind path metadata now =>
    dsimp only [Manifest.updated]
    split
    · rename_i record left tracking
      obtain ⟨_, -, same⟩ := map_eq_ok.1 tracking
      obtain ⟨-, rfl⟩ := Prod.mk.inj same
      exact count_recount _
    · exact counted
  | remove path => exact count_recount _
  | cleanup s => exact isCounted_cleanup counted s p

/-- An update keeps paths from standing in two buckets, unless it loads a manifest in which they
do. -/
theorem IsSorted.updated {update : Update} (sorted : m.IsSorted)
    (loads : ∀ store loaded, update = .load store → store.load p = .ok loaded → loaded.IsSorted) :
    (m.updated p update).IsSorted := by
  cases update with
  | load store =>
    dsimp only [Manifest.updated]
    split
    · rename_i loaded loading
      exact loads store loaded rfl loading
    · exact sorted
  | track kind path metadata now =>
    dsimp only [Manifest.updated]
    split
    · rename_i record left tracking
      obtain ⟨_, -, same⟩ := map_eq_ok.1 tracking
      obtain ⟨-, rfl⟩ := Prod.mk.inj same
      exact sorted.track
    · exact sorted
  | remove path => exact sorted.of_subset fun r mem => (mem_records_remove.1 mem).1
  | cleanup s => exact sorted.of_subset (m.shrinks_cleanup s p).2.2

theorem IsCounted.updatedAll (counted : m.IsCounted) (updates : List (Project × Update)) :
    (m.updatedAll updates).IsCounted := by
  induction updates generalizing m with
  | nil => exact counted
  | cons step rest ih => exact ih (counted.updated step.2)

theorem IsSorted.updatedAll (sorted : m.IsSorted) (updates : List (Project × Update))
    (loads : ∀ p store loaded, (p, Update.load store) ∈ updates → store.load p = .ok loaded →
      loaded.IsSorted) :
    (m.updatedAll updates).IsSorted := by
  induction updates generalizing m with
  | nil => exact sorted
  | cons step rest ih =>
    obtain ⟨p, update⟩ := step
    refine ih (sorted.updated (p := p) ?_) fun q store loaded mem =>
      loads q store loaded (List.mem_cons_of_mem _ mem)
    rintro store loaded rfl
    exact loads p store loaded (List.mem_cons_self ..)

theorem recordIn?_track (m : Manifest) (kind path other : String) (record : FileRecord) :
    (m.track kind path record).recordIn? other path = if other = kind then some record
      else none := by
  refine Option.ext fun found => ?_
  rw [recordIn?_eq_some, mem_records_track]
  by_cases here : other = kind
  · simp [here, eq_comm]
  · simp [here]

theorem recordIn?_remove (m : Manifest) (kind path : String) :
    (m.remove path).2.recordIn? kind path = none := by
  refine Option.eq_none_iff_forall_ne_some.2 fun found here => ?_
  exact (mem_records_remove.1 (recordIn?_eq_some.1 here)).2 rfl

theorem tells_of_ofFile {path : String} {metadata : Json.Members} {now : Moment}
    {record : FileRecord} (h : FileRecord.ofFile p path metadata now = .ok record) :
    record.Tells p path := by
  cases found : p.fileExists path with
  | error e => simp [FileRecord.ofFile, found, bind, Except.bind] at h
  | ok here =>
    cases here with
    | false =>
      simp only [FileRecord.ofFile, found, bind, Except.bind, Bool.false_eq_true, if_false] at h
      obtain rfl := Except.ok.inj h
      exact .absent found rfl rfl
    | true =>
      cases read : p.read path with
      | error e => simp [FileRecord.ofFile, found, read, bind, Except.bind] at h
      | ok content =>
        simp only [FileRecord.ofFile, found, read, bind, Except.bind, if_true] at h
        obtain rfl := Except.ok.inj h
        exact .present content read (Project.stands_of_read read).1 rfl rfl

/-- A file can be tracked when it is missing or can be read. -/
theorem exists_trackFile_iff {kind path : String} {metadata : Json.Members} {now : Moment} :
    (∃ made, m.trackFile p kind path metadata now = .ok made) ↔
      p.fileExists path = .ok false ∨ ∃ content, p.read path = .ok content := by
  constructor
  · rintro ⟨made, tracked⟩
    obtain ⟨record, recorded, -⟩ := map_eq_ok.1 tracked
    cases tells_of_ofFile recorded with
    | absent missing => exact .inl missing
    | present content read => exact .inr ⟨content, read⟩
  · rintro (missing | ⟨content, read⟩)
    · exact ⟨_, map_eq_ok.2
        ⟨_, by simp only [FileRecord.ofFile, missing, bind, Except.bind]; rfl, rfl⟩⟩
    · have found := Project.fileExists_of_stands (Project.stands_of_read read).1
      exact ⟨_, map_eq_ok.2
        ⟨_, by simp only [FileRecord.ofFile, found, read, bind, Except.bind]; rfl, rfl⟩⟩

/-- Whatever was done with a manifest whose records were counted, they are counted. A file that is
tracked then has one record, under its kind, and it tells what the file holds; a path that is
removed has none. And no path stands in two buckets, unless one did at the start or in a manifest
that was loaded. -/
theorem keeps_buckets (m : Manifest) (counted : m.IsCounted) (updates : List (Project × Update)) :
    (m.updatedAll updates).IsCounted ∧
      (∀ p kind path metadata now,
        ((∃ made, (m.updatedAll updates).trackFile p kind path metadata now = .ok made) ↔
          p.fileExists path = .ok false ∨ ∃ content, p.read path = .ok content) ∧
        ∀ record left,
          (m.updatedAll updates).trackFile p kind path metadata now = .ok (record, left) →
          record.Tells p path ∧
            ∀ other, left.recordIn? other path = if other = kind then some record else none) ∧
      (∀ path kind, ((m.updatedAll updates).remove path).2.recordIn? kind path = none) ∧
      (m.IsSorted →
        (∀ p store loaded, (p, Update.load store) ∈ updates → store.load p = .ok loaded →
          loaded.IsSorted) →
        (m.updatedAll updates).IsSorted) := by
  refine ⟨counted.updatedAll updates, fun p kind path metadata now => ⟨exists_trackFile_iff, ?_⟩,
    fun path kind => recordIn?_remove _ kind path, fun sorted loads =>
      sorted.updatedAll updates loads⟩
  intro record left tracked
  obtain ⟨made, recorded, same⟩ := map_eq_ok.1 tracked
  obtain ⟨rfl, rfl⟩ := Prod.mk.inj same
  exact ⟨tells_of_ofFile recorded, fun other => recordIn?_track _ kind path other made⟩

/-- The manifest of a new project is loaded, the file that it holds is tracked as a view, and then
cleaned up. -/
def strayUpdates : List (Project × Update) :=
  [(strayProject, .load {}),
    (strayProject, .track "views" "app/Models/Old.php" [] ⟨2024, 1, 1, 12, 0, 0, 0, none⟩),
    (strayProject, .cleanup noSchema)]

/-- Two files were tracked as models before. -/
theorem keeps_buckets_stray :
    (stray "app/Models/New.php").IsCounted ∧ (stray "app/Models/New.php").IsSorted ∧
      ((stray "app/Models/New.php").updatedAll strayUpdates).IsCounted ∧
      ((stray "app/Models/New.php").updatedAll strayUpdates).IsSorted := by
  have counted : (stray "app/Models/New.php").IsCounted := rfl
  have sorted : (stray "app/Models/New.php").IsSorted := by
    unfold IsSorted
    decide +kernel
  have fresh : ({} : Store).load strayProject = .ok {} := rfl
  obtain ⟨after, -, -, apart⟩ := keeps_buckets (stray "app/Models/New.php") counted strayUpdates
  refine ⟨counted, sorted, after, apart sorted fun p store loaded mem loads => ?_⟩
  obtain ⟨rfl, rfl⟩ : p = strayProject ∧ store = {} := by simpa [strayUpdates] using mem
  obtain rfl := Except.ok.inj (fresh.symm.trans loads)
  have empty : ({} : Manifest).records = [] := rfl
  rintro r mem
  rw [empty] at mem
  cases mem

end Manifest
end Scaffold
