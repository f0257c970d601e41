import Scaffold.Proofs.Disk.Fitting
import Scaffold.Proofs.Manifest.Admitting
import Scaffold.Proofs.Moment.Clocks
import Scaffold.Proofs.Manifest.Snapshots

/-!
# The history after many saves

When what the clock shows rises from one save to the next, every entry is the last of the history
when it is written. So after any number of saves the history holds the last ones, as many as it may,
each as it was written, and tells them newest first: `Store.history_of_saveAll`. What counts is the
clock. It shows later and later times at later and later moments as long as it is equally far ahead
of universal time (`Moment.reading_lt_iff`); where it is set back, an entry can be written that is
not the last of the history, and is not kept.
-/

namespace Scaffold
set_option autoImplicit false

namespace Snapshot

variable {s t : Snapshot}

/-- The name under which a snapshot is saved, unless it is taken. -/
def name (s : Snapshot) : String := Store.historyStem s.manifest s.moment ++ ".json"

/-- What the history tells of a snapshot that stands at a path. -/
def members (s : Snapshot) (path : String) : Json.Members :=
  [("manifest", s.manifest.toJson.reread), ("schema_hash", Json.ofText? s.manifest.schemaHash),
    ("timestamp", .string s.moment.iso), ("path", .string path)]

theorem name_ne (regular : s.moment.IsRegular) (regular' : t.moment.IsRegular)
    (lt : s.moment.reading < t.moment.reading) : s.name ≠ t.name := by
  have apart := Moment.dashed_append_lt regular regular' lt
  rw [name, name, Store.historyStem, Store.historyStem, String.append_assoc, String.append_assoc,
    String.append_assoc, String.append_assoc]
  exact String.ne_of_lt (apart _ _)

end Snapshot

namespace Store

variable {store : Store} {p after : Project} {s : Snapshot} {snapshots : List Snapshot}
  {path : String} {saved : List (Snapshot × String)}

/-- Saves snapshots to the history, one after another, and tells where. -/
def saveAll (store : Store) : List Snapshot → Project → Except Interruption (List String) × Project
  | [], p => (.ok [], p)
  | s :: rest, p =>
    match store.saveToHistory s.manifest s.moment p with
    | (.error e, p) => (.error e, p)
    | (.ok path, p) =>
      match store.saveAll rest p with
      | (.error e, p) => (.error e, p)
      | (.ok paths, p) => (.ok (path :: paths), p)

theorem saveAll_nil (store : Store) (p : Project) : store.saveAll [] p = (.ok [], p) := rfl

theorem saveAll_cons (store : Store) (s : Snapshot) (rest : List Snapshot) (p : Project) :
    store.saveAll (s :: rest) p = match store.saveToHistory s.manifest s.moment p with
    | (.error e, p) => (.error e, p)
    | (.ok path, p) =>
      match store.saveAll rest p with
      | (.error e, p) => (.error e, p)
      | (.ok paths, p) => (.ok (path :: paths), p) := by
  rfl

theorem saveAll_cons_eq_ok {rest : List Snapshot} {paths : List String} :
    store.saveAll (s :: rest) p = (.ok paths, after) ↔ ∃ path between others,
      store.saveToHistory s.manifest s.moment p = (.ok path, between) ∧
      store.saveAll rest between = (.ok others, after) ∧
        paths = path :: others := by
  rw [saveAll_cons]
  cases store.saveToHistory s.manifest s.moment p with
  | mk outcome between =>
    cases outcome with
    | error e => simp
    | ok path =>
      cases others : store.saveAll rest between with
      | mk outcome last => cases outcome <;> simp [others, eq_comm, and_comm]

namespace Enters

variable {m : Manifest} {now : Moment} {made written : Project} {text : String}
  {files : List String}

/-- What is kept stays as it was. -/
theorem stands_after (h : Enters store m now p path after made written text files)
    (plain : store.IsPlain) {file : String} (kept : file ∈ files.drop (store.excess files.length))
    {content : ByteArray} (stands : written.Stands file content) :
    after.Stands file content := by
  have rises := (h.lists_files plain).rises
  rw [← List.take_append_drop (store.excess files.length) files, List.pairwise_append] at rises
  refine stands.of_touches h.touches_after ?_
  rintro ⟨other, gone, same⟩
  obtain rfl :=
    h.eq_of_namesOf_eq plain (List.mem_of_mem_drop kept) (List.mem_of_mem_take gone) same
  exact String.lt_irrefl _ (rises.2.2 _ gone _ kept)

/-- What stood before stands when the entry was written. -/
theorem stands_of_before (h : Enters store m now p path after made written text files)
    (plain : store.IsPlain) {file : String} {content : ByteArray} (stands : p.Stands file content) :
    written.Stands file content := by
  refine (stands.of_touches (Project.touches_of_makeDirectory h.directory) id).of_touches
    h.touches_written fun same => ?_
  have vacant := h.vacant plain
  rw [← same, stands.contentAt] at vacant
  cases vacant

theorem denials_after (h : Enters store m now p path after made written text files) :
    after.denials = p.denials := by
  rw [h.shrinks.same, h.touches_written.same, (Project.touches_of_makeDirectory h.directory).same]

/-- An entry after all others becomes the last of the history. -/
theorem files_eq (h : Enters store m now p path after made written text files)
    (plain : store.IsPlain) (flat : '/' ∉ (historyStem m now).toList) {entries : List String}
    (before : Lists store p entries)
    (last : ∀ file ∈ entries, file < path) : files = entries ++ [path] := by
  refine eq_of_pairwise_lt (h.lists_files plain).rises ?_ fun file => ?_
  · rw [List.pairwise_append]
    exact ⟨before.rises, List.pairwise_singleton .., fun file mem _ isPath =>
      List.mem_singleton.1 isPath ▸ last file mem⟩
  · rw [h.mem_files_iff plain flat before, List.mem_append, List.mem_singleton]

end Enters

/-- The snapshot of an entry stands where the entry does. -/
def HoldsSnapshot (p : Project) (entry : Snapshot × String) : Prop :=
  ∃ text, printed (historyEntry entry.1.manifest entry.1.moment) = .ok text ∧
    p.Stands entry.2 text.toUTF8

/-- The last of a list, as many as the history may hold. -/
def newest {α : Type} (store : Store) (list : List α) : List α :=
  list.drop (list.length - store.historyLimit.toNat)

theorem map_newest {α β : Type} (f : α → β) (list : List α) :
    (store.newest list).map f = store.newest (list.map f) := by
  rw [newest, newest, List.map_drop, List.length_map]

theorem length_newest {α : Type} (list : List α) :
    (store.newest list).length = min list.length store.historyLimit.toNat := by
  rw [newest, List.length_drop]
  omega

/-- What is left of the newest ones and one more. -/
theorem newest_concat {α : Type} (filled : 1 ≤ store.historyLimit) (list : List α) (a : α) :
    (store.newest list ++ [a]).drop (store.excess (store.newest list ++ [a]).length) = store.newest
      (list ++ [a]) := by
  have front :
      store.newest list ++ [a] = (list ++ [a]).drop (list.length - store.historyLimit.toNat) := by
    rw [newest, List.drop_append_of_le_length (Nat.sub_le ..)]
  have count :
      (store.newest list ++ [a]).length = min list.length store.historyLimit.toNat + 1 := by
    rw [List.length_append, length_newest, List.length_singleton]
  rw [count, front, List.drop_drop, newest, List.length_append, List.length_singleton, excess]
  congr 1
  omega

/-- The history holds the newest of the snapshots that were saved, where they were saved, as they
were written. -/
structure Keeps (store : Store) (saved : List (Snapshot × String)) (p : Project) : Prop where
  opened : p.IsOpen
  granted : p.denials = []
  named : ∀ entry ∈ saved, ∃ name, IsEntryName entry.1.moment name ∧ entry.2 = store.entryPath name
  listed : store.historyFiles p = .ok ((store.newest saved).map (·.2))
  holds : ∀ entry ∈ store.newest saved, HoldsSnapshot p entry

/-- A save of a snapshot whose moment shows a later time than all before. -/
theorem Keeps.saveToHistory (kept : Keeps store saved p) (plain : store.IsPlain)
    (filled : 1 ≤ store.historyLimit) (regular : s.moment.IsRegular)
    (regulars : ∀ entry ∈ saved, entry.1.moment.IsRegular) (digest : s.manifest.HasPlainDigest)
    (later : ∀ entry ∈ saved, entry.1.moment.reading < s.moment.reading)
    (h : store.saveToHistory s.manifest s.moment p = (.ok path, after)) :
    Keeps store (saved ++ [(s, path)]) after := by
  obtain ⟨made, written, text, files, enters⟩ := enters_of_saveToHistory plain h
  have flat : '/' ∉ (historyStem s.manifest s.moment).toList := not_mem_historyStem digest
  obtain ⟨stem, isPath, isEntry, -⟩ := enters.exists_flat plain flat
  have last : ∀ file ∈ (store.newest saved).map (·.2), file < path := by
    intro file mem
    obtain ⟨entry, isNew, rfl⟩ := List.mem_map.1 mem
    have isSaved := List.mem_of_mem_drop isNew
    obtain ⟨name, isName, at'⟩ := kept.named entry isSaved
    rw [at', isPath]
    exact entryPath_lt isName isEntry (regulars entry isSaved) regular (later entry isSaved)
  have files_eq : files = (store.newest saved ++ [(s, path)]).map (·.2) := by
    rw [enters.files_eq plain flat (lists_of_historyFiles plain kept.opened kept.listed) last,
      List.map_append]
    rfl
  have left :
      files.drop (store.excess files.length) = (store.newest (saved ++ [(s, path)])).map (·.2) := by
    rw [← newest_concat filled, files_eq, List.map_drop, List.length_map]
  refine ⟨enters.isOpen_after plain,
    by rw [enters.denials_after, kept.granted], fun entry mem => ?_,
    left ▸ enters.historyFiles_after plain, fun entry mem => ?_⟩
  · rcases List.mem_append.1 mem with old | new
    · exact kept.named entry old
    · obtain rfl := List.mem_singleton.1 new
      exact ⟨_, isEntry, isPath⟩
  · have isKept : entry.2 ∈ files.drop (store.excess files.length) := left ▸ List.mem_map_of_mem mem
    rw [← newest_concat filled] at mem
    rcases List.mem_append.1 (List.mem_of_mem_drop mem) with old | new
    · obtain ⟨content, spelled, stands⟩ := kept.holds entry old
      exact ⟨content, spelled,
        enters.stands_after plain isKept (enters.stands_of_before plain stands)⟩
    · obtain rfl := List.mem_singleton.1 new
      exact ⟨text, enters.spelled, enters.stands_after plain isKept (enters.stands_written plain)⟩

/-- Saves of snapshots whose moments show later and later times. -/
theorem Keeps.saveAll (kept : Keeps store saved p) (plain : store.IsPlain)
    (filled : 1 ≤ store.historyLimit) {paths : List String}
    (regular : ∀ s ∈ saved.map (·.1) ++ snapshots, s.moment.IsRegular)
    (digest : ∀ s ∈ snapshots, s.manifest.HasPlainDigest)
    (rises : (saved.map (·.1) ++ snapshots).Pairwise (·.moment.reading < ·.moment.reading))
    (h : store.saveAll snapshots p = (.ok paths, after)) :
    paths.length = snapshots.length ∧ Keeps store (saved ++ snapshots.zip paths) after := by
  induction snapshots generalizing saved p paths with
  | nil =>
    obtain ⟨rfl, rfl⟩ : [] = paths ∧ p = after := by simpa [saveAll_nil] using h
    exact ⟨rfl, by simpa using kept⟩
  | cons s rest ih =>
    obtain ⟨path, between, others, first, further, rfl⟩ := saveAll_cons_eq_ok.1 h
    obtain ⟨own, digests⟩ := List.forall_mem_cons.1 digest
    have isLater : ∀ entry ∈ saved, entry.1.moment.reading < s.moment.reading := fun entry mem =>
      (List.pairwise_append.1 rises).2.2 _ (List.mem_map_of_mem mem) s (List.mem_cons_self ..)
    have next := kept.saveToHistory plain filled (regular s (by simp))
      (fun entry mem => regular _ (by simp [List.mem_map_of_mem mem]))
      own isLater first
    have front : (saved ++ [(s, path)]).map (·.1) ++ rest = saved.map (·.1) ++ s :: rest := by simp
    obtain ⟨length, kept⟩ := ih next (front ▸ regular) digests (front ▸ rises) further
    exact ⟨by simp [length], by simpa using kept⟩

/-- An entry is read as it was written. -/
theorem readEntry_of_holds {entry : Snapshot × String} (h : HoldsSnapshot p entry)
    (granted : p.denials = []) :
    readEntry p entry.2 = .ok (some (entry.2, entry.1.members entry.2)) := by
  obtain ⟨text, spelled, stands⟩ := h
  obtain ⟨printable, rfl⟩ := printed_eq_ok.1 spelled
  have reread : (historyEntry entry.1.manifest entry.1.moment).reread =
      .object [("manifest", entry.1.manifest.toJson.reread),
        ("schema_hash", Json.ofText? entry.1.manifest.schemaHash),
        ("timestamp", .string entry.1.moment.iso)] := by
    have hash : (Json.ofText? entry.1.manifest.schemaHash).reread =
        Json.ofText? entry.1.manifest.schemaHash := by
      cases entry.1.manifest.schemaHash <;> rfl
    have ordered : sortOn (·.1) [("timestamp", Json.string entry.1.moment.iso),
        ("schema_hash", Json.ofText? entry.1.manifest.schemaHash),
        ("manifest", entry.1.manifest.toJson)] = [("manifest", entry.1.manifest.toJson),
          ("schema_hash", Json.ofText? entry.1.manifest.schemaHash),
          ("timestamp", Json.string entry.1.moment.iso)] := by
      rw [← sortOn_eq_of_perm (by simp) (List.reverse_perm _), List.reverse_cons, List.reverse_cons,
        List.reverse_singleton]
      exact sortOn_eq_self
        (by simp [(by decide : "manifest" ≤ "schema_hash"), (by decide : "manifest" ≤ "timestamp"),
          (by decide : "schema_hash" ≤ "timestamp")])
    rw [historyEntry, Json.reread_object (by simp), ordered]
    simp only [List.map_cons, List.map_nil, hash, Json.reread]
  have found :
      p.readText entry.2 = .ok (historyEntry entry.1.manifest entry.1.moment).indented := by
    simp only [Project.readText,
      Project.read_of_stands stands (Project.permit_of_granted granted ..), Text.Utf8.decode_toUTF8,
      bind, Except.bind, mapError_ok]
  simp only [readEntry, found, Json.objectOfText, Json.read_indented printable, reread,
    Snapshot.members]
  rfl

/-- The history tells of the snapshots that it holds, newest first. -/
theorem Keeps.history (kept : Keeps store saved p) :
    store.history p = .ok ((store.newest saved).reverse.map fun entry =>
      (entry.2, entry.1.members entry.2)) := by
  have read : ((store.newest saved).map (·.2)).reverse.mapM (readEntry p) =
      .ok ((store.newest saved).reverse.map fun entry =>
        some (entry.2, entry.1.members entry.2)) := by
    rw [mapM_eq_ok, ← List.map_reverse, List.forall₂_map_left_iff, List.forall₂_map_right_iff,
      List.forall₂_same]
    exact fun entry mem =>
      readEntry_of_holds (kept.holds entry (List.mem_reverse.1 mem)) kept.granted
  simp only [Store.history, kept.listed, read, bind, Except.bind]
  rw [List.filterMap_map]
  exact congrArg Except.ok (List.filterMap_eq_map ▸ rfl)

/-- There is nothing in the history, and nothing is refused. -/
structure IsNew (store : Store) (p : Project) : Prop where
  opened : p.IsOpen
  granted : p.denials = []
  listed : store.historyFiles p = .ok []

/-- The directory of the history can be made, and is empty then. -/
def IsClear (store : Store) (p : Project) :
    Prop := ∃ made, p.makeDirectory store.historyDirectory = (.ok (), made) ∧
  ∀ name, made.disk.get? (name :: made.disk.target (made.root.extend store.directory)) = none

/-- Whether the directory of the history can be made, and is empty then. -/
def opensEmpty (store : Store) (p : Project) : Bool :=
  let opening := p.makeDirectory store.historyDirectory
  succeeds opening.1 fun _ =>
    (opening.2.disk.children
      (opening.2.disk.target (opening.2.root.extend store.directory))).isEmpty

theorem isClear_of_opensEmpty (h : store.opensEmpty p = true) : store.IsClear p := by
  obtain ⟨⟨⟩, making, absent⟩ := succeeds_eq_true.1 h
  refine ⟨_, Prod.fst_eq_iff.1 making, fun name => ?_⟩
  rw [← Option.not_isSome_iff_eq_none]
  exact fun held => List.not_mem_nil (List.isEmpty_iff.1 absent ▸ Disk.mem_children.2 held)

/-- A snapshot can be printed, and its name is short enough. -/
def CanEnter (store : Store) (p : Project) (s : Snapshot) : Prop :=
  HasRoom store p s.name ∧ (historyEntry s.manifest s.moment).isPrintable = true

/-- Snapshots with names of their own are saved one after another. -/
theorem Admits.saveAll {place : Place} {names : List String} (h : Admits store place names p)
    (plain : store.IsPlain) (digest : ∀ s ∈ snapshots, s.manifest.HasPlainDigest)
    (new : ∀ s ∈ snapshots, s.name ∉ names)
    (apart : snapshots.Pairwise (·.name ≠ ·.name)) (fit : ∀ s ∈ snapshots, CanEnter store p s) :
    ∃ paths after, store.saveAll snapshots p = (.ok paths, after) := by
  induction snapshots generalizing p names with
  | nil => exact ⟨[], p, rfl⟩
  | cons s rest ih =>
    obtain ⟨own, digests⟩ := List.forall_mem_cons.1 digest
    obtain ⟨isNew, news⟩ := List.forall_mem_cons.1 new
    obtain ⟨⟨room, printable⟩, fits⟩ := List.forall_mem_cons.1 fit
    obtain ⟨other, others⟩ := List.pairwise_cons.1 apart
    obtain ⟨path, between, first, same, keeps, admits⟩ :=
      h.saveToHistory plain own isNew room printable
    obtain ⟨paths, after, further⟩ := ih admits digests
      (fun t mem isIn => (List.mem_append.1 isIn).elim (news t mem) fun here =>
        other t mem (List.mem_singleton.1 here).symm) others
      (fun t mem => ⟨(fits t mem).1.of_keeps same keeps, (fits t mem).2⟩)
    exact ⟨_, after, saveAll_cons_eq_ok.2 ⟨path, between, paths, first, further, rfl⟩⟩

/-- With an empty directory, all snapshots with names of their own are saved. -/
theorem exists_saveAll (plain : store.IsPlain) (granted : p.denials = []) (clear : store.IsClear p)
    (digest : ∀ s ∈ snapshots, s.manifest.HasPlainDigest)
    (apart : snapshots.Pairwise (·.name ≠ ·.name))
    (fit : ∀ s ∈ snapshots, CanEnter store p s) :
    ∃ paths after, store.saveAll snapshots p = (.ok paths, after) := by
  cases snapshots with
  | nil => exact ⟨[], p, rfl⟩
  | cons s rest =>
    obtain ⟨made, making, absent⟩ := clear
    have touched := Project.touches_of_makeDirectory making
    obtain ⟨above, root, -, here, directory⟩ := exists_place_of_made plain making
    have down : ".." ∉ store.directory := fun mem => absurd (plain.named ".." mem) (by decide)
    have admits : Admits store (store.directory.reverse ++ above) [] made := by
      refine ⟨by rw [touched.same, granted], here, directory, fun name held => ?_⟩
      rw [Disk.eq_target_of_locate root, ← Disk.target_extend down, absent name] at held
      cases held
    obtain ⟨paths, after, saved⟩ := admits.saveAll plain digest (fun _ _ => List.not_mem_nil) apart
      (fun t mem => ⟨(fit t mem).1.of_keeps touched.same touched.keeps, (fit t mem).2⟩)
    -- the directory is made by the first save
    have same : store.saveToHistory s.manifest s.moment p =
        store.saveToHistory s.manifest s.moment made := by
      simp only [saveToHistory, making, makeDirectory_of_here here directory]
    refine ⟨paths, after, ?_⟩
    rw [saveAll_cons] at saved ⊢
    rwa [same]

/-- A manifest with a plain digest enters an empty history in which there is room for an entry. -/
theorem exists_saveToHistory {m : Manifest} {now : Moment} (plain : store.IsPlain)
    (granted : p.denials = []) (clear : store.IsClear p) (digest : m.HasPlainDigest)
    (room : HasRoom store p (historyStem {} now ++ ".json"))
    (printable : (historyEntry m now).isPrintable = true) :
    ∃ path after, store.saveToHistory m now p = (.ok path, after) := by
  have le : (historyStem m now ++ ".json").utf8ByteSize ≤
      (historyStem {} now ++ ".json").utf8ByteSize := by
    simp only [String.utf8ByteSize_append]
    exact Nat.add_le_add_right (utf8ByteSize_historyStem_le digest) _
  obtain ⟨paths, after, saved⟩ :=
    @exists_saveAll store p [⟨m, now⟩] plain granted clear (by simpa using digest)
    (List.pairwise_singleton ..) (by simpa using ⟨room.of_le le, printable⟩)
  obtain ⟨path, between, -, first, -, -⟩ := saveAll_cons_eq_ok.1 saved
  exact ⟨path, between, first⟩

/-- Snapshots whose moments show later and later times are all saved in a history that is empty, if
they fit in. Then the history holds as many of them as it may, the last ones, in the order of the
saves and as they were written, and tells them newest first. -/
theorem history_of_saveAll (plain : store.IsPlain) (filled : 1 ≤ store.historyLimit)
    (new : store.IsNew p) (regular : ∀ s ∈ snapshots, s.moment.IsRegular)
    (digest : ∀ s ∈ snapshots, s.manifest.HasPlainDigest)
    (rises : snapshots.Pairwise (·.moment.reading < ·.moment.reading)) :
    (store.IsClear p → (∀ s ∈ snapshots, CanEnter store p s) →
      ∃ paths after, store.saveAll snapshots p = (.ok paths, after)) ∧
    ∀ paths after, store.saveAll snapshots p = (.ok paths, after) →
      paths.length = snapshots.length ∧
      (store.newest paths).length = min snapshots.length store.historyLimit.toNat ∧
      store.historyFiles after = .ok (store.newest paths) ∧
      (∀ entry ∈ store.newest (snapshots.zip paths), HoldsSnapshot after entry) ∧
      store.history after = .ok ((store.newest (snapshots.zip paths)).reverse.map fun entry =>
        (entry.2, entry.1.members entry.2)) := by
  refine ⟨fun clear fit => exists_saveAll plain new.granted clear digest ?_ fit,
    fun paths after saved => ?_⟩
  · exact rises.imp_of_mem fun mem mem' lt => Snapshot.name_ne (regular _ mem) (regular _ mem') lt
  · have start : Keeps store [] p := by
      refine ⟨new.opened, new.granted, fun entry mem => absurd mem List.not_mem_nil, ?_,
        fun entry mem => ?_⟩
      · simpa [newest] using new.listed
      · simp [newest] at mem
    obtain ⟨length, kept⟩ :=
      start.saveAll plain filled (by simpa using regular) digest (by simpa using rises) saved
    rw [List.nil_append] at kept
    have listed := kept.listed
    rw [map_newest, List.map_snd_zip (by omega)] at listed
    exact ⟨length, by rw [length_newest, length], listed, kept.holds, kept.history⟩

/-- An empty project has no history. -/
theorem isNew_newProject (limit : Int) : ({ historyLimit := limit } : Store).IsNew newProject := by
  have checked : succeeds (({} : Store).historyFiles newProject) (·.isEmpty) = true := by
    decide +kernel
  obtain ⟨files, listed, empty⟩ := succeeds_eq_true.1 checked
  rw [List.isEmpty_iff.1 empty] at listed
  exact ⟨⟨_, rfl⟩, rfl, listed⟩

/-- Snapshots of an empty manifest, a minute after another. -/
def threeMinutes : List Snapshot :=
  [0, 1, 2].map fun minute => ⟨{}, ⟨2024, 1, 1, 12, minute, 0, 0, none⟩⟩

/-- Of three snapshots a history of two entries holds the last two. -/
theorem history_of_saveAll_threeMinutes : ∃ first second third after,
    ({ historyLimit := 2 } : Store).saveAll threeMinutes newProject =
      (.ok [first, second, third], after) ∧ ({ historyLimit := 2 } : Store).historyFiles after =
        .ok [second, third] := by
  have plain : ({ historyLimit := 2 } : Store).IsPlain := by decide +kernel
  have clear : ({ historyLimit := 2 } : Store).IsClear newProject :=
    isClear_of_opensEmpty (by decide +kernel)
  have regular : ∀ s ∈ threeMinutes, s.moment.IsRegular := by decide +kernel
  have digest : ∀ s ∈ threeMinutes, s.manifest.HasPlainDigest := by decide +kernel
  have rises : threeMinutes.Pairwise (·.moment.reading < ·.moment.reading) := by decide +kernel
  have room : ({ historyLimit := 2 } : Store).HasRoom newProject
      (historyStem {} ⟨2024, 1, 1, 12, 0, 0, 0, none⟩ ++ ".json") := by
    decide +kernel
  have long : ∀ s ∈ threeMinutes,
      s.name.utf8ByteSize ≤ (historyStem {} ⟨2024, 1, 1, 12, 0, 0, 0, none⟩ ++
        ".json").utf8ByteSize := by
    decide +kernel
  have printable : ∀ s ∈ threeMinutes, (historyEntry s.manifest s.moment).isPrintable = true := by
    decide +kernel
  have fit :
      ∀ s ∈ threeMinutes, ({ historyLimit := 2 } : Store).CanEnter newProject s := fun s mem =>
    ⟨room.of_le (long s mem), printable s mem⟩
  obtain ⟨all, holds⟩ :=
    history_of_saveAll plain (by decide) (isNew_newProject 2) regular digest rises
  obtain ⟨paths, after, saved⟩ := all clear fit
  obtain ⟨length, -, listed, -, -⟩ := holds paths after saved
  obtain ⟨first, second, third, rfl⟩ : ∃ first second third, paths = [first, second, third] :=
    List.length_eq_three.1 length
  exact ⟨first, second, third, after, saved, listed⟩

/-- A snapshot of noon, two hours ahead of universal time, and one of an hour later, on a clock of
universal time. -/
def clockSetBack : List Snapshot :=
  [⟨{}, ⟨2024, 1, 1, 12, 0, 0, 0, some 7200000000⟩⟩, ⟨{}, ⟨2024, 1, 1, 11, 0, 0, 0, some 0⟩⟩]

/-- Of two snapshots, in a history of one entry, it is the later one that is deleted when the clock
was set back between them. -/
theorem later_snapshot_lost : ¬ ∀ (store : Store) (p : Project) (snapshots : List Snapshot)
    (paths : List String) (after : Project), store.IsPlain → 1 ≤ store.historyLimit →
      store.IsNew p → (∀ s ∈ snapshots, s.moment.IsRegular) →
      (∀ s ∈ snapshots, s.manifest.HasPlainDigest) →
      (∀ s ∈ snapshots, s.moment.offset.isSome = true) →
        snapshots.Pairwise (·.moment.instant < ·.moment.instant) →
        store.saveAll snapshots p = (.ok paths, after) →
          store.historyFiles after = .ok (store.newest paths) := by
  intro claimed
  have checked :
      succeeds (({ historyLimit := 1 } : Store).saveAll clockSetBack newProject).1 (fun paths =>
        succeeds (({ historyLimit := 1 } : Store).historyFiles
            (({ historyLimit := 1 } : Store).saveAll clockSetBack newProject).2) (fun files =>
              files != ({ historyLimit := 1 } : Store).newest paths)) = true := by decide +kernel
  obtain ⟨paths, ran, others⟩ := succeeds_eq_true.1 checked
  obtain ⟨files, listed, apart⟩ := succeeds_eq_true.1 others
  have later : Moment.instant ⟨2024, 1, 1, 12, 0, 0, 0, some 7200000000⟩ < Moment.instant
      ⟨2024, 1, 1, 11, 0, 0, 0, some 0⟩ := by
    decide +kernel
  have kept := claimed _ _ clockSetBack paths _ (by decide +kernel) (by decide) (isNew_newProject 1)
    (by decide +kernel) (by decide +kernel) (by decide) (List.pairwise_pair.2 later)
    (Prod.fst_eq_iff.1 ran)
  rw [listed] at kept
  exact absurd (Except.ok.inj kept) (by simpa using apart)

end Store
end Scaffold
