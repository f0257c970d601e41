import Scaffold.Proofs.Disk.Writing
import Scaffold.Proofs.Manifest.Entries
import Scaffold.Proofs.Manifest.Loading

/-!
# Entering the history

What a save to the history does when it returns: it makes the directory, writes the entry where
nothing stands, and deletes the oldest of what the history then holds (`Store.Enters`). No save
changes a file that is there, though it may delete old entries (`Store.contentAt_saveToHistory`).
The entry itself is among what is deleted exactly when there are as many later ones as the history
may hold: `Store.Enters.stands_iff_later`.
-/

namespace Scaffold
set_option autoImplicit false

/-- The greatest of a rising list are left when the others are dropped. An element is one of them
when there are not enough greater ones to fill their place. -/
theorem not_mem_take_iff {list : List String} (rises : list.Pairwise (· < ·)) {text : String}
    (mem : text ∈ list) {limit : Nat} (filled : 1 ≤ limit) :
    text ∉ list.take (list.length - limit) ↔
      ((list.drop (list.length - limit)).filter (text < ·)).length < limit := by
  have halves : list.take (list.length - limit) ++ list.drop (list.length - limit) = list :=
    List.take_append_drop _ list
  have apart := rises
  rw [← halves, List.pairwise_append] at apart
  constructor
  · intro spared
    have here : text ∈ list.drop (list.length - limit) := by
      rw [← halves, List.mem_append] at mem
      exact mem.resolve_left spared
    have fewer : ((list.drop (list.length - limit)).filter (text < ·)).length <
      (list.drop (list.length - limit)).length :=
      List.length_filter_lt_length_iff_exists.2 ⟨text, here, by simp⟩
    rw [List.length_drop] at fewer
    omega
  · intro fewer gone
    have all :
      (list.drop (list.length - limit)).filter (text < ·) = list.drop (list.length - limit) :=
      List.filter_eq_self.2 fun later isLater => by simpa using apart.2.2 text gone later isLater
    have dropped : 0 < list.length - limit := by
      rw [Nat.pos_iff_ne_zero]
      intro absent
      rw [absent] at gone
      exact absurd gone List.not_mem_nil
    rw [all, List.length_drop] at fewer
    omega

namespace Project

variable {p after : Project} {path : String}

theorem touches_of_makeDirectory {outcome : Except Interruption Unit}
    (h : p.makeDirectory path = (outcome, after)) :
    Touches (fun _ => False) p after := by
  have touched := p.touches_makeDirectory path
  rwa [h] at touched

/-- A directory that was made is there. -/
theorem exists_place_of_makeDirectory (named : namesOf path ≠ [])
    (h : p.makeDirectory path = (.ok (), after)) :
    ∃ place, after.place? path = some place ∧ after.disk.isDirectory place := by
  unfold makeDirectory at h
  split at h
  · cases (Prod.mk.inj h).1
  · rename_i resolved resolves
    split at h
    · rename_i disk made
      obtain ⟨-, rfl⟩ := Prod.mk.inj h
      obtain ⟨place, located, directory⟩ :=
        Disk.exists_locate_of_makeDirectories (endsInName_of_resolve named resolves) made
      exact ⟨place, place?_eq_some.2 ⟨_, resolves, located⟩, directory⟩
    · cases (Prod.mk.inj h).1

theorem isDirectory_of_place? {place : Place} (here : p.place? path = some place)
    (directory : p.disk.isDirectory place) : p.isDirectory path = .ok true := by
  obtain ⟨resolved, resolves, located⟩ := place?_eq_some.1 here
  simp [isDirectory, status, resolves, Disk.status, located, Disk.isDirectory_iff.1 directory, bind,
    Except.bind, Except.map]

/-- No file can be written in the place of the root. -/
theorem write_root_ne_ok {above : Place} (located : p.disk.locate p.root = .ok above)
    (directory : p.disk.isDirectory above) {content : ByteArray} {size : Nat} :
    p.write "" content ≠ (.ok size, after) := by
  intro h
  rcases p.write_cases "" content with ⟨e, failed, -⟩ | ⟨resolved, disk, resolves, written, -⟩
  · rw [h] at failed
    cases failed
  · obtain ⟨-, -, rfl⟩ := resolve_eq_ok.1 resolves
    have root : p.root.extend (namesOf "") = p.root := by
      have empty : namesOf "" = [] := by decide
      rw [empty, Path.extend, List.append_nil]
    rw [root] at written
    obtain ⟨between, made, ⟨e, eq⟩ | ⟨name, parent, here, free, -⟩⟩ :=
      p.disk.write_cases p.root content p.whole
    · cases (Prod.mk.inj (written.symm.trans eq)).1
    · obtain rfl := Except.ok.inj (here.symm.trans (made.keeps.locate located))
      exact free (made.keeps.directories _ directory)

/-- A search that succeeds was not refused. -/
theorem permit_of_glob {pattern : String} {files : List String} (h : p.glob pattern = .ok files) :
    p.permit .glob pattern = .ok () := by
  rcases p.permit_cases .glob pattern with permitted | ⟨f, denied⟩
  · exact permitted
  · simp [glob, denied, bind, Except.bind] at h

end Project

namespace Store

variable {store : Store} {p after : Project} {m : Manifest} {now : Moment} {path : String}
  {files : List String}

theorem free_of_firstFree {paths : List String} (h : firstFree p paths = .ok (some path)) :
    path ∈ paths ∧ p.fileExists path = .ok false := by
  induction paths with
  | nil => cases h
  | cons first rest ih =>
    simp only [firstFree, bind, Except.bind] at h
    split at h
    · cases h
    · rename_i isThere status
      cases isThere with
      | true =>
        obtain ⟨mem, free⟩ := ih h
        exact ⟨List.mem_cons_of_mem _ mem, free⟩
      | false =>
        obtain rfl := Option.some.inj (Except.ok.inj h)
        exact ⟨List.mem_cons_self .., status⟩

/-- Deleting files one after another touches these. -/
theorem touches_deleteAll {touched : List String → Prop} {paths : List String}
    (within : ∀ path ∈ paths, touched (namesOf path)) :
    Project.Touches touched p (deleteAll paths p).2 := by
  induction paths generalizing p with
  | nil => exact .refl _ p
  | cons path rest ih =>
    unfold deleteAll
    split
    · rename_i deleted
      have first := (Project.touches_delete deleted).mono fun names same =>
        same ▸ within path (List.mem_cons_self ..)
      exact first.trans (ih fun other mem => within other (List.mem_cons_of_mem _ mem))
    · exact .refl _ p

/-- Deleting files changes no other one, whether all could be deleted or not. -/
theorem shrinks_deleteAll (paths : List String) (p : Project) :
    Project.Shrinks p (deleteAll paths p).2 := by
  induction paths generalizing p with
  | nil => exact .refl p
  | cons path rest ih =>
    unfold deleteAll
    split
    · rename_i deleted
      exact (Project.shrinks_delete deleted).trans (ih _)
    · exact .refl p

/-- Files that were deleted one after another are gone. -/
theorem contentAt_of_deleteAll (opened : p.IsOpen) {paths : List String}
    (h : deleteAll paths p = (.ok (), after)) :
    ∀ path ∈ paths, after.contentAt (namesOf path) = none := by
  induction paths generalizing p with
  | nil => exact fun path mem => absurd mem List.not_mem_nil
  | cons path rest ih =>
    unfold deleteAll at h
    split at h
    · rename_i found between deleted
      have shrunk := Project.shrinks_delete deleted
      have further := shrinks_deleteAll rest between
      rw [h] at further
      refine List.forall_mem_cons.2 ⟨?_, ih (opened.of_keeps shrunk.same shrunk.keeps) h⟩
      rcases further.contents (namesOf path) with same | gone
      · rw [same, Project.contentAt_of_delete opened deleted]
      · exact gone
    · cases (Prod.mk.inj h).1

theorem pruneHistory_eq_ok {old : List String} : store.pruneHistory p = (.ok old, after) ↔ ∃ files,
    store.historyFiles p = .ok files ∧ old = files.take (store.excess files.length) ∧
    deleteAll old p = (.ok (), after) := by
  unfold pruneHistory
  cases store.historyFiles p with
  | error e => simp
  | ok files =>
    cases deletion : deleteAll (files.take (store.excess files.length)) p with
    | mk outcome between =>
      cases outcome with
      | error e =>
        simp only [deletion, Except.ok.injEq, exists_eq_left', Prod.mk.injEq, reduceCtorEq,
          false_and, false_iff, not_and]
        rintro rfl
        simp [deletion]
      | ok _ =>
        simp only [deletion, Except.ok.injEq, exists_eq_left', Prod.mk.injEq]
        constructor
        · rintro ⟨rfl, rfl⟩
          exact ⟨rfl, deletion⟩
        · rintro ⟨rfl, same⟩
          exact ⟨rfl, (Prod.mk.inj (deletion.symm.trans same)).2⟩

/-- What a save to the history does when it returns: an entry is written where nothing stands, and
what is then over the limit is deleted, the oldest first. -/
structure Enters (store : Store) (m : Manifest) (now : Moment) (p : Project) (path : String)
    (after made written : Project) (text : String) (files : List String) : Prop where
  directory : p.makeDirectory store.historyDirectory = (.ok (), made)
  isPath : path ∈ store.historyPaths (historyStem m now) (made.disk.entries.length + 1)
  free : made.fileExists path = .ok false
  spelled : printed (historyEntry m now) = .ok text
  wrote : ∃ size, made.writeText path text = (.ok size, written)
  found : store.historyFiles written = .ok files
  pruned : deleteAll (files.take (store.excess files.length)) written = (.ok (), after)

/-- The directory of the history, once it was made, and the root above it. -/
theorem exists_place_of_made (plain : store.IsPlain) {made : Project}
    (h : p.makeDirectory store.historyDirectory = (.ok (), made)) :
    ∃ above, made.disk.locate made.root = .ok above ∧ made.disk.isDirectory above ∧
      made.place? store.historyDirectory = some (store.directory.reverse ++ above) ∧
      made.disk.isDirectory (store.directory.reverse ++ above) := by
  have named : namesOf store.historyDirectory ≠ [] := by
    rw [plain.namesOf_eq]
    exact store.directory_ne_nil
  obtain ⟨place, here, directory⟩ := Project.exists_place_of_makeDirectory named h
  obtain ⟨resolved, resolves, located⟩ := Project.place?_eq_some.1 here
  obtain ⟨-, down, rfl⟩ := Project.resolve_eq_ok.1 resolves
  obtain ⟨above, root⟩ := Disk.exists_locate_of_extend located
  have below : place = store.directory.reverse ++ above := by
    rw [Disk.eq_target_of_locate located, Disk.target_extend down, plain.namesOf_eq,
      ← Disk.eq_target_of_locate root]
  subst below
  have filled : store.directory.reverse ≠ [] := by simpa using store.directory_ne_nil
  have held : (made.disk.get? (store.directory.reverse ++ above)).isSome := by
    rw [Disk.isDirectory_iff.1 directory]
    rfl
  exact ⟨above, root, Disk.isDirectory_of_below filled held, here, directory⟩

/-- A save that returns enters the history. -/
theorem enters_of_saveToHistory (plain : store.IsPlain)
    (h : store.saveToHistory m now p = (.ok path, after)) :
    ∃ made written text files, Enters store m now p path after made written text files := by
  unfold saveToHistory at h
  split at h
  · cases (Prod.mk.inj h).1
  · rename_i made directory
    dsimp only at h
    split at h
    · cases (Prod.mk.inj h).1
    · rename_i free found
      split at h
      · cases (Prod.mk.inj h).1
      · rename_i text spelled
        split at h
        · cases (Prod.mk.inj h).1
        · rename_i size written wrote
          split at h
          · rename_i old left pruned
            obtain ⟨same, rfl⟩ := Prod.mk.inj h
            obtain rfl := Except.ok.inj same
            obtain ⟨files, listed, rfl, deleted⟩ := pruneHistory_eq_ok.1 pruned
            cases free with
            | none =>
              obtain ⟨above, root, isDirectory, -, -⟩ := exists_place_of_made plain directory
              exact absurd wrote (Project.write_root_ne_ok root isDirectory)
            | some path =>
              obtain ⟨isPath, vacant⟩ := free_of_firstFree found
              exact ⟨made, written, text, files, directory, isPath, vacant, spelled, ⟨size, wrote⟩,
                listed, deleted⟩
          · cases (Prod.mk.inj h).1

/-- What the history lists are names in its directory. -/
theorem namesOf_of_mem_historyFiles (plain : store.IsPlain) (opened : p.IsOpen)
    (h : store.historyFiles p = .ok files) : ∀ file ∈ files, ∃ stem : String,
    file = store.entryPath (stem ++ ".json") ∧
    namesOf file = store.directory ++ [stem ++ ".json"] := by
  intro file mem
  obtain ⟨stem, rfl, held⟩ := (mem_historyFiles_iff plain opened h).1 mem
  obtain ⟨content, held⟩ := Option.isSome_iff_exists.1 held
  have named := Project.isName_of_contentAt opened held (stem ++ ".json") (by simp)
  exact ⟨stem, rfl, namesOf_entryPath plain named⟩

/-- Pruning takes away entries of the history only. -/
theorem contentAt_pruneHistory (plain : store.IsPlain) (opened : p.IsOpen) {names : List String}
    {content : ByteArray} (held : p.contentAt names = some content) :
    (store.pruneHistory p).2.contentAt names = some content ∨
      (store.pruneHistory p).2.contentAt names = none ∧ ∃ stem : String,
      names = store.directory ++ [stem ++ ".json"] := by
  unfold pruneHistory
  split
  · exact .inl held
  · rename_i files found
    have within : ∀ file ∈ files.take (store.excess files.length), ∃ stem : String,
      namesOf file = store.directory ++ [stem ++ ".json"] :=
      fun file mem => (namesOf_of_mem_historyFiles plain opened found file
        (List.mem_of_mem_take mem)).imp fun _ both => both.2
    have touched : Project.Touches (fun names => ∃ stem : String,
        names = store.directory ++ [stem ++ ".json"]) p
        (deleteAll (files.take (store.excess files.length)) p).2 := touches_deleteAll within
    have shrunk := (shrinks_deleteAll (files.take (store.excess files.length)) p).contents names
    have left : (deleteAll (files.take (store.excess files.length)) p).2.contentAt names =
        some content ∨ (deleteAll (files.take (store.excess files.length)) p).2.contentAt
        names = none ∧
          ∃ stem : String, names = store.directory ++ [stem ++ ".json"] := by
      by_cases isEntry : ∃ stem : String, names = store.directory ++ [stem ++ ".json"]
      · exact shrunk.imp (fun same => same.trans held) fun gone => ⟨gone, isEntry⟩
      · exact .inl ((touched.contents names isEntry).trans held)
    dsimp only
    cases deletion : deleteAll (files.take (store.excess files.length)) p with
    | mk outcome after =>
      rw [deletion] at left
      cases outcome <;> exact left

theorem shrinks_pruneHistory (p : Project) : Project.Shrinks p (store.pruneHistory p).2 := by
  unfold pruneHistory
  split
  · exact .refl p
  · rename_i files found
    have shrunk := shrinks_deleteAll (files.take (store.excess files.length)) p
    dsimp only
    cases deletion : deleteAll (files.take (store.excess files.length)) p with
    | mk outcome after =>
      rw [deletion] at shrunk
      cases outcome <;> exact shrunk

/-- Whether or not it comes to its end, a save to the history leaves all files alone, or it writes
one where nothing stands, and prunes the history. -/
theorem saveToHistory_cases (plain : store.IsPlain) (m : Manifest) (now : Moment) (p : Project) :
    Project.Touches (fun _ => False) p (store.saveToHistory m now p).2 ∨
      ∃ path count written, path ∈ store.historyPaths (historyStem m now) count ∧
      p.contentAt (namesOf path) = none ∧
        written.IsOpen ∧ Project.Touches (· = namesOf path) p written ∧
        (store.saveToHistory m now p).2 = (store.pruneHistory written).2 := by
  have made_eq := p.touches_makeDirectory store.historyDirectory
  unfold saveToHistory
  cases directory : p.makeDirectory store.historyDirectory with
  | mk outcome made =>
    rw [directory] at made_eq
    cases outcome with
    | error e => exact .inl made_eq
    | ok _ =>
      obtain ⟨above, root, isDirectory, -, -⟩ := exists_place_of_made plain directory
      dsimp only
      split
      · exact .inl made_eq
      · rename_i free found
        split
        · exact .inl made_eq
        · rename_i text _
          cases wrote : made.writeText (free.getD "") text with
          | mk outcome written =>
            cases outcome with
            | error e => exact .inl (made_eq.trans (Project.touches_write_of_error wrote))
            | ok size =>
              cases free with
              | none => exact absurd wrote (Project.write_root_ne_ok root isDirectory)
              | some path =>
                obtain ⟨isPath, free⟩ := free_of_firstFree found
                have vacant := Project.contentAt_of_fileExists ⟨above, root⟩ free
                rw [made_eq.contents _ id] at vacant
                have changed := made.touches_write path text.toUTF8
                have same : (made.write path text.toUTF8).2 = written := congrArg Prod.snd wrote
                rw [same] at changed
                have opened : written.IsOpen :=
                  Project.IsOpen.of_keeps ⟨above, root⟩ changed.same changed.keeps
                refine .inr ⟨path, _, written, isPath, vacant, opened,
                  (made_eq.mono fun _ => False.elim).trans changed, ?_⟩
                simp only
                cases pruned : store.pruneHistory written with
                | mk outcome after => cases outcome <;> rfl

/-- No save to the history changes a file that is there; what it takes away are entries of the
history. -/
theorem contentAt_saveToHistory (plain : store.IsPlain) (m : Manifest) (now : Moment) (p : Project)
    {names : List String} {content : ByteArray} (held : p.contentAt names = some content) :
    (store.saveToHistory m now p).2.contentAt names = some content ∨
      (store.saveToHistory m now p).2.contentAt names = none ∧ ∃ stem : String,
      names = store.directory ++ [stem ++ ".json"] := by
  rcases saveToHistory_cases plain m now p with untouched | ⟨path, -, written, -, vacant,
    opened, changed, eq⟩
  · exact .inl ((untouched.contents names id).trans held)
  · have other : names ≠ namesOf path := by
      rintro rfl
      cases held.symm.trans vacant
    rw [eq]
    exact contentAt_pruneHistory plain opened ((changed.contents names other).trans held)

/-- What stands in a project after a save to the history stood there before, or is the entry. -/
theorem isSome_contentAt_saveToHistory (plain : store.IsPlain) (m : Manifest) (now : Moment)
    (p : Project) : ∃ name, IsEntryName now name ∧
    ∀ names, ((store.saveToHistory m now p).2.contentAt names).isSome = true →
      (p.contentAt names).isSome = true ∨ names = namesOf (store.entryPath name) := by
  rcases saveToHistory_cases plain m now p with untouched | ⟨path, count, written, isPath, -,
    -, changed, eq⟩
  · exact ⟨_, ⟨"", rfl⟩, fun names held => .inl (untouched.contents names id ▸ held)⟩
  · obtain ⟨name, rfl, isEntry, -⟩ := exists_of_mem_historyPaths isPath
    refine ⟨name, isEntry, fun names held => ?_⟩
    by_cases here : names = namesOf (store.entryPath name)
    · exact .inr here
    · rw [eq] at held
      rcases (shrinks_pruneHistory written).contents names with same | gone
      · exact .inl (by rwa [same, changed.contents names here] at held)
      · rw [gone] at held
        cases held

/-- The history of a project, in order. -/
structure Lists (store : Store) (p : Project) (entries : List String) : Prop where
  rises : entries.Pairwise (· < ·)
  holds : ∀ path, path ∈ entries ↔ ∃ stem : String, path = store.entryPath (stem ++ ".json") ∧
    (p.contentAt (store.directory ++ [stem ++ ".json"])).isSome = true

theorem lists_of_historyFiles (plain : store.IsPlain) (opened : p.IsOpen)
    (h : store.historyFiles p = .ok files) : Lists store p files :=
  ⟨pairwise_historyFiles h, fun _ => mem_historyFiles_iff plain opened h⟩

theorem Lists.unique {entries others : List String} (h : Lists store p entries)
    (h' : Lists store p others) : entries = others :=
  eq_of_pairwise_lt h.rises h'.rises fun path => (h.holds path).trans (h'.holds path).symm

namespace Enters

variable {made written : Project} {text : String}

theorem vacant (h : Enters store m now p path after made written text files)
    (plain : store.IsPlain) : p.contentAt (namesOf path) = none := by
  obtain ⟨above, root, -⟩ := exists_place_of_made plain h.directory
  rw [← (Project.touches_of_makeDirectory h.directory).contents (namesOf path) id]
  exact Project.contentAt_of_fileExists ⟨above, root⟩ h.free

theorem touches_written (h : Enters store m now p path after made written text files) :
    Project.Touches (· = namesOf path) made written := by
  obtain ⟨size, wrote⟩ := h.wrote
  have changed := made.touches_write path text.toUTF8
  have same : (made.write path text.toUTF8).2 = written := congrArg Prod.snd wrote
  rwa [same] at changed

theorem contentAt_written (h : Enters store m now p path after made written text files)
    {names : List String} (other : names ≠ namesOf path) :
    written.contentAt names = p.contentAt names :=
  (h.touches_written.contents names other).trans
    ((Project.touches_of_makeDirectory h.directory).contents names id)

theorem shrinks (h : Enters store m now p path after made written text files) :
    Project.Shrinks written after := by
  have shrunk := shrinks_deleteAll (files.take (store.excess files.length)) written
  rwa [h.pruned] at shrunk

/-- The directory of the history is there when the entry was written. -/
theorem exists_place (h : Enters store m now p path after made written text files)
    (plain : store.IsPlain) : written.IsOpen ∧ ∃ place, written.place? store.historyDirectory =
      some place ∧ written.disk.isDirectory place := by
  obtain ⟨above, root, -, here, directory⟩ := exists_place_of_made plain h.directory
  have changed := h.touches_written
  exact ⟨Project.IsOpen.of_keeps ⟨above, root⟩ changed.same changed.keeps, _,
    Project.place?_of_keeps changed.same changed.keeps here, changed.keeps.directories _ directory⟩

theorem isOpen_after (h : Enters store m now p path after made written text files)
    (plain : store.IsPlain) : after.IsOpen :=
  (h.exists_place plain).1.of_keeps h.shrinks.same h.shrinks.keeps

/-- The names of the entry lead through the directory of the history. -/
theorem exists_name (h : Enters store m now p path after made written text files)
    (plain : store.IsPlain) : ∃ name, path = store.entryPath name ∧ IsEntryName now name ∧
    ('/' ∈ name.toList ↔ '/' ∈ (historyStem m now).toList) ∧
      namesOf path = store.directory ++ namesOf name := by
  obtain ⟨name, rfl, isEntry, slash⟩ := exists_of_mem_historyPaths h.isPath
  exact ⟨name, rfl, isEntry, slash, by rw [entryPath, namesOf_append, plain.namesOf_eq]⟩

/-- The entry is in the directory of the history. -/
theorem exists_flat (h : Enters store m now p path after made written text files)
    (plain : store.IsPlain) (flat : '/' ∉ (historyStem m now).toList) :
    ∃ stem : String, path = store.entryPath (stem ++ ".json") ∧ IsEntryName now (stem ++ ".json") ∧
      namesOf path = store.directory ++ [stem ++ ".json"] := by
  obtain ⟨name, rfl, isEntry, slash, names⟩ := h.exists_name plain
  rw [isEntry.namesOf_eq (mt slash.1 flat)] at names
  obtain ⟨mark, rfl⟩ := isEntry
  rw [← String.append_assoc] at names ⊢
  exact ⟨_, rfl, ⟨mark, by rw [String.append_assoc]⟩, names⟩

/-- With a slash in its name, it is below that directory. -/
theorem ne_of_deep (h : Enters store m now p path after made written text files)
    (plain : store.IsPlain) (deep : '/' ∈ (historyStem m now).toList) (name : String) :
    namesOf path ≠ store.directory ++ [name] := by
  obtain ⟨name', rfl, isEntry, slash, names⟩ := h.exists_name plain
  intro same
  have two := isEntry.two_le (slash.2 deep)
  rw [List.append_cancel_left (names.symm.trans same)] at two
  exact absurd two (by simp)

theorem stands_written (h : Enters store m now p path after made written text files)
    (plain : store.IsPlain) : written.Stands path text.toUTF8 := by
  obtain ⟨name, -, -, -, names⟩ := h.exists_name plain
  obtain ⟨size, wrote⟩ := h.wrote
  exact Project.stands_of_write (by simp [names, store.directory_ne_nil]) wrote

theorem lists_files (h : Enters store m now p path after made written text files)
    (plain : store.IsPlain) : Lists store written files :=
  lists_of_historyFiles plain (h.exists_place plain).1 h.found

/-- The history that is pruned is the one that was there, with the entry. -/
theorem mem_files_iff (h : Enters store m now p path after made written text files)
    (plain : store.IsPlain) (flat : '/' ∉ (historyStem m now).toList) {entries : List String}
    (before : Lists store p entries) {other : String} :
    other ∈ files ↔ other ∈ entries ∨ other = path := by
  obtain ⟨stem, rfl, -, names⟩ := h.exists_flat plain flat
  have vacant := h.vacant plain
  have held := (h.stands_written plain).contentAt
  rw [names] at vacant held
  rw [(h.lists_files plain).holds, before.holds]
  constructor
  · rintro ⟨other, rfl, held⟩
    by_cases same : store.directory ++ [other ++ ".json"] = store.directory ++ [stem ++ ".json"]
    · exact .inr (congrArg store.entryPath (List.singleton_inj.1 (List.append_cancel_left same)))
    · exact .inl ⟨other, rfl, by rwa [h.contentAt_written (names ▸ same)] at held⟩
  · rintro (⟨other, rfl, held'⟩ | rfl)
    · refine ⟨other, rfl, ?_⟩
      rwa [h.contentAt_written]
      rw [names]
      intro same
      rw [same, vacant] at held'
      cases held'
    · exact ⟨stem, rfl, by rw [held]; rfl⟩

theorem mem_files (h : Enters store m now p path after made written text files)
    (plain : store.IsPlain) (flat : '/' ∉ (historyStem m now).toList) : path ∈ files := by
  obtain ⟨stem, rfl, -, names⟩ := h.exists_flat plain flat
  exact ((h.lists_files plain).holds _).2 ⟨stem, rfl,
    by rw [← names, (h.stands_written plain).contentAt]; rfl⟩

/-- Pruning touches what is over the limit. -/
theorem touches_after (h : Enters store m now p path after made written text files) :
    Project.Touches (fun names => ∃ file ∈ files.take (store.excess files.length),
      names = namesOf file) written after := by
  have touched : Project.Touches (fun names => ∃ file ∈ files.take (store.excess files.length),
      names = namesOf file) written (deleteAll (files.take (store.excess files.length))
        written).2 := touches_deleteAll fun file mem => ⟨file, mem, rfl⟩
  rwa [h.pruned] at touched

/-- What is listed is told apart by its names. -/
theorem eq_of_namesOf_eq (h : Enters store m now p path after made written text files)
    (plain : store.IsPlain) {file other : String}
    (mem : file ∈ files) (isOther : other ∈ files) (same : namesOf file = namesOf other) :
    file = other := by
  have listed := namesOf_of_mem_historyFiles plain (h.exists_place plain).1 h.found
  obtain ⟨stem, rfl, names⟩ := listed file mem
  obtain ⟨stem', rfl, names'⟩ := listed other isOther
  rw [names, names'] at same
  exact congrArg store.entryPath (List.singleton_inj.1 (List.append_cancel_left same))

/-- After the save the history is without its oldest entries. -/
theorem lists_after (h : Enters store m now p path after made written text files)
    (plain : store.IsPlain) : Lists store after (files.drop (store.excess files.length)) := by
  have opened := (h.exists_place plain).1
  have before := h.lists_files plain
  have halves : files.take (store.excess files.length) ++ files.drop (store.excess files.length) =
    files := List.take_append_drop _ _
  have apart := before.rises
  rw [← halves, List.pairwise_append] at apart
  refine ⟨apart.2.1, fun other => ⟨fun kept => ?_, ?_⟩⟩
  · have mem := List.mem_of_mem_drop kept
    obtain ⟨stem, rfl, held⟩ := (before.holds other).1 mem
    refine ⟨stem, rfl, ?_⟩
    obtain ⟨content, content_eq⟩ := Option.isSome_iff_exists.1 held
    have names :=
      namesOf_entryPath plain
        (Project.isName_of_contentAt opened content_eq (stem ++ ".json") (by simp))
    rwa [h.touches_after.contents]
    rintro ⟨file, gone, same⟩
    obtain rfl := h.eq_of_namesOf_eq plain (List.mem_of_mem_take gone) mem (by rw [names, same])
    exact String.lt_irrefl _ (apart.2.2 _ gone _ kept)
  · rintro ⟨stem, rfl, held⟩
    rcases h.shrinks.contents (store.directory ++ [stem ++ ".json"]) with same | gone
    · have mem : store.entryPath (stem ++ ".json") ∈ files :=
        (before.holds _).2 ⟨stem, rfl, same ▸ held⟩
      rw [← halves, List.mem_append] at mem
      refine mem.resolve_left fun gone => ?_
      obtain ⟨content, content_eq⟩ := Option.isSome_iff_exists.1 (same ▸ held)
      have names :=
        namesOf_entryPath plain
          (Project.isName_of_contentAt opened content_eq (stem ++ ".json") (by simp))
      have absent := contentAt_of_deleteAll opened h.pruned _ gone
      rw [names] at absent
      rw [absent] at held
      cases held
    · rw [gone] at held
      cases held

/-- After the save the history can be listed. -/
theorem historyFiles_after (h : Enters store m now p path after made written text files)
    (plain : store.IsPlain) :
    store.historyFiles after = .ok (files.drop (store.excess files.length)) := by
  obtain ⟨-, place, here, directory⟩ := h.exists_place plain
  have permitted : after.permit .glob (store.historyDirectory ++ "/*.json") = .ok () := by
    have same : after.permit .glob (store.historyDirectory ++ "/*.json") = written.permit .glob
        (store.historyDirectory ++ "/*.json") := by
      rw [h.shrinks.same]
      rfl
    rw [same]
    rcases historyFiles_eq_ok.1 h.found with ⟨-, found⟩ | ⟨absent, -⟩
    · exact Project.permit_of_glob found
    · cases (Project.isDirectory_of_place? here directory).symm.trans absent
  obtain ⟨listed, found⟩ :=
    exists_historyFiles plain
      (Project.place?_of_keeps h.shrinks.same h.shrinks.keeps here) permitted
  rw [found, (lists_of_historyFiles plain (h.isOpen_after plain) found).unique
    (h.lists_after plain)]

/-- The entry stands at its path after the save unless it is over the limit itself. -/
theorem stands_iff (h : Enters store m now p path after made written text files)
    (plain : store.IsPlain) :
    after.Stands path text.toUTF8 ↔ path ∉ files.take (store.excess files.length) := by
  have opened := (h.exists_place plain).1
  constructor
  · intro stands gone
    have absent := contentAt_of_deleteAll opened h.pruned path gone
    rw [stands.contentAt] at absent
    cases absent
  · intro spared
    refine (h.stands_written plain).of_touches h.touches_after ?_
    rintro ⟨file, gone, same⟩
    by_cases flat : '/' ∈ (historyStem m now).toList
    · obtain ⟨stem, -, names⟩ :=
        namesOf_of_mem_historyFiles plain opened h.found file (List.mem_of_mem_take gone)
      exact h.ne_of_deep plain flat _ (same.trans names)
    · obtain rfl :=
        h.eq_of_namesOf_eq plain (h.mem_files plain flat) (List.mem_of_mem_take gone) same
      exact spared gone

/-- The entry stands at its path after the save unless the history, which it is in, is full of later
ones. -/
theorem stands_iff_later (h : Enters store m now p path after made written text files)
    (plain : store.IsPlain) (filled : 1 ≤ store.historyLimit) :
    after.Stands path text.toUTF8 ↔ '/' ∈ (historyStem m now).toList ∨
      ((files.drop (store.excess files.length)).filter (path < ·)).length <
        store.historyLimit.toNat := by
  rw [h.stands_iff plain]
  by_cases deep : '/' ∈ (historyStem m now).toList
  · refine iff_of_true (fun gone => ?_) (.inl deep)
    obtain ⟨stem, -, names⟩ :=
      namesOf_of_mem_historyFiles plain (h.exists_place plain).1 h.found path
        (List.mem_of_mem_take gone)
    exact h.ne_of_deep plain deep _ names
  · have excess : store.excess files.length = files.length - store.historyLimit.toNat := by
      rw [excess]
      omega
    rw [or_iff_right deep, excess]
    exact not_mem_take_iff (h.lists_files plain).rises (h.mem_files plain deep) (by omega)

end Enters

end Store
end Scaffold
