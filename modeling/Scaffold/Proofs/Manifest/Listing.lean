import Scaffold.Manifest.Store
import Scaffold.Proofs.Project.Keeping

/-!
# Listing the history

Where the directory of the history is given by plain names, the history is what stands in it with
the ending `.json`, in the order of the paths: `Store.mem_historyFiles_iff`. Listing it fails only
where that is refused, once the way to the directory is open (`Store.exists_historyFiles`).
-/

namespace Scaffold
set_option autoImplicit false

namespace Disk

variable {disk : Disk}

/-- No name on an open way is too long. -/
theorem short_of_walk {names : List String} {start goal : Place}
    (down : ∀ name ∈ names, name ≠ "..") (h : disk.walk start names = .ok goal) :
    ∀ name ∈ names, isTooLong name = false := by
  induction names generalizing start with
  | nil => exact fun name mem => absurd mem List.not_mem_nil
  | cons name rest ih =>
    obtain ⟨straight, others⟩ := List.forall_mem_cons.1 down
    simp only [walk, if_neg straight] at h
    split at h
    · split at h
      · cases h
      · rename_i short
        exact List.forall_mem_cons.2 ⟨by simpa using short, ih others h⟩
    · cases h

/-- A search for the files of one directory succeeds where its path is short enough. -/
theorem exists_select {root : Path} {front : List String} {pattern : Pattern} {place : Place}
    {shown : List String} (named : ∀ name ∈ front, isTooLong name = false)
    (short : isTooLongPath (root.extend (shown ++ front)).text = false) :
    ∃ found, disk.select root false (front.map .name ++ [.fitting pattern]) place shown =
      .ok found := by
  induction front generalizing place shown with
  | nil =>
    simp only [List.map_nil, List.nil_append]
    cases outcome : disk.select root false [.fitting pattern] place shown with
    | ok found => exact ⟨found, rfl⟩
    | error e =>
      simp only [select] at outcome
      obtain ⟨name, -, failed⟩ := exists_of_mapM_error (map_eq_error.1 outcome)
      cases failed
  | cons name front ih =>
    obtain ⟨first, others⟩ := List.forall_mem_cons.1 named
    have whole :
        root.extend (shown ++ name :: front) = (root.extend (shown ++ [name])).extend front := by
      simp [Path.extend]
    have here : isTooLongPath (root.extend (shown ++ [name])).text = false :=
      isTooLongPath_extend (whole ▸ short)
    have rest {next : Place} : ∃ found,
        disk.select root false (front.map .name ++ [.fitting pattern]) next (shown ++
          [name]) = .ok found :=
      ih others (by simpa using short)
    simp only [List.map_cons, List.cons_append, select, first, here, Bool.or_self,
      Bool.false_eq_true, if_false]
    generalize (if name = ".." then place.tail else name :: place) = next
    split
    all_goals split
    · exact rest
    · exact ⟨[], rfl⟩
    · exact rest
    · exact ⟨[], rfl⟩

end Disk

namespace Store

/-- The directory of the history is given by names in which no character means more than itself. -/
def IsPlain (store : Store) : Prop :=
  ∀ name ∈ Text.split '/' store.historyDirectory, isName name = true ∧
    Pattern.isPattern name = false

instance (store : Store) : Decidable store.IsPlain := inferInstanceAs (Decidable (∀ _ ∈ _, _))

/-- The names that lead to the history. -/
def directory (store : Store) : List String := Text.split '/' store.historyDirectory

variable {store : Store} {p : Project} {name path : String} {files : List String}

theorem directory_ne_nil (store : Store) : store.directory ≠ [] := by
  rw [directory, Text.split, ne_eq, List.map_eq_nil_iff]
  exact Chars.split_ne_nil '/' store.historyDirectory.toList

theorem join_directory (store : Store) : Text.join "/" store.directory = store.historyDirectory :=
  Text.join_split store.historyDirectory

theorem IsPlain.named (plain : store.IsPlain) : ∀ name ∈ store.directory, isName name = true :=
  fun name mem => (plain name mem).1

theorem IsPlain.normal (plain : store.IsPlain) : Path.IsNormal store.historyDirectory := by
  rw [← store.join_directory]
  exact (Path.normal_join store.directory_ne_nil plain.named).1

theorem IsPlain.namesOf_eq (plain : store.IsPlain) :
    namesOf store.historyDirectory = store.directory :=
  namesOf_of_normal plain.normal

/-- The path of a name in the history. -/
def entryPath (store : Store) (name : String) : String := store.historyDirectory ++ "/" ++ name

theorem entryPath_eq_join (store : Store) (name : String) :
    store.entryPath name = Text.join "/" (store.directory ++ [name]) := by
  have single : Text.join "/" [name] = name := by simp [Text.join]
  rw [Text.join_append store.directory_ne_nil (List.cons_ne_nil name []), single,
    join_directory, entryPath]

theorem normal_entryPath (plain : store.IsPlain) (named : isName name = true) :
    Path.IsNormal (store.entryPath name) ∧
    Text.split '/' (store.entryPath name) = store.directory ++ [name] := by
  rw [entryPath_eq_join]
  refine Path.normal_join (by simp) fun other mem => ?_
  rcases List.mem_append.1 mem with front | last
  · exact plain.named other front
  · rwa [List.mem_singleton.1 last]

theorem namesOf_entryPath (plain : store.IsPlain) (named : isName name = true) :
    namesOf (store.entryPath name) = store.directory ++ [name] := by
  obtain ⟨normal, split⟩ := normal_entryPath plain named
  rw [namesOf_of_normal normal, split]

/-- The steps of the pattern with which the history is listed. -/
def steps (store : Store) : List GlobStep :=
  store.directory.map .name ++ [.fitting (Pattern.parts "*.json".toList)]

theorem ofText_pattern (plain : store.IsPlain) :
    Glob.ofText (store.historyDirectory ++ "/*.json") = .ok ⟨store.steps, false⟩ := by
  have pattern : store.historyDirectory ++ "/*.json" = store.entryPath "*.json" := by
    rw [entryPath, String.append_assoc]
    rfl
  have named : isName "*.json" = true := by decide
  obtain ⟨normal, split⟩ := normal_entryPath plain named
  have spelled : (store.directory ++ ["*.json"]).mapM Glob.stepOf = .ok store.steps := by
    have fitting : Glob.stepOf "*.json" = .ok (.fitting (Pattern.parts "*.json".toList)) := by
      have single : Text.has "**" "*.json" = false := by decide
      have more : Pattern.isPattern "*.json" = true := by decide
      simp [Glob.stepOf, single, more]
    rw [mapM_eq_ok]
    refine List.rel_append ?_ (.cons fitting .nil)
    rw [List.forall₂_map_right_iff, List.forall₂_same]
    exact fun name mem => Glob.stepOf_of_plain (Glob.not_has_depth (plain name mem).2)
      (plain name mem).2
  have ends : Text.endsWith "/" (store.entryPath "*.json") = false := by
    simp [entryPath, Text.endsWith, Chars.endsWith, Chars.dropHead?]
  rw [pattern, Glob.ofText_of_normal normal, split, spelled, ends]
  rfl

theorem matches_steps_iff {names : List String} : GlobStep.Matches store.steps names ↔
    ∃ stem : String, names = store.directory ++ [stem ++ ".json"] := by
  have star : "*.json" = "" ++ "*" ++ ".json" := by decide
  have last {names : List String} :
      GlobStep.Matches [.fitting (Pattern.parts "*.json".toList)] names ↔
      ∃ stem : String, names = [stem ++ ".json"] := by
    simp only [GlobStep.matches_fitting_iff, GlobStep.matches_nil_iff]
    have covered {name : String} :
        Pattern.recognizes (Pattern.parts "*.json".toList) name.toList = true ↔
        ∃ stem, name = stem ++ ".json" := by
      rw [star, ← Pattern.covers, Pattern.covers_star (by decide) (by decide)]
      simp
    constructor
    · rintro ⟨_, _, rfl, fits, rfl⟩
      obtain ⟨stem, rfl⟩ := covered.1 fits
      exact ⟨stem, rfl⟩
    · rintro ⟨stem, rfl⟩
      exact ⟨_, _, rfl, covered.2 ⟨stem, rfl⟩, rfl⟩
  have front (front : List String) {names : List String} :
      GlobStep.Matches (front.map .name ++ [.fitting (Pattern.parts "*.json".toList)]) names ↔
        ∃ stem : String, names = front ++ [stem ++ ".json"] := by
    induction front generalizing names with
    | nil => exact last
    | cons name front ih =>
      rw [List.map_cons, List.cons_append, GlobStep.matches_name_iff]
      simp only [ih]
      constructor
      · rintro ⟨_, rfl, stem, rfl⟩
        exact ⟨stem, rfl⟩
      · rintro ⟨stem, rfl⟩
        exact ⟨_, rfl, stem, rfl⟩
  exact front store.directory

theorem historyFiles_eq_ok : store.historyFiles p = .ok files ↔
    (p.isDirectory store.historyDirectory = .ok true ∧
      p.glob (store.historyDirectory ++ "/*.json") = .ok files) ∨
      p.isDirectory store.historyDirectory = .ok false ∧ files = [] := by
  simp only [historyFiles, bind, Except.bind]
  cases p.isDirectory store.historyDirectory with
  | error e => simp
  | ok there => cases there <;> simp [pure, Except.pure, eq_comm]

/-- Where there is no directory for the history, there is nothing in it. -/
theorem contentAt_of_isDirectory (plain : store.IsPlain) (opened : p.IsOpen)
    (h : p.isDirectory store.historyDirectory = .ok false) (name : String) :
    p.contentAt (store.directory ++ [name]) = none := by
  obtain ⟨above, located⟩ := opened
  cases held : p.contentAt (store.directory ++ [name]) with
  | none => rfl
  | some content =>
    have file := Project.isFile_of_contentAt located held
    rw [List.reverse_append, List.reverse_singleton, List.singleton_append,
      List.cons_append] at file
    have directory := Disk.isDirectory_above (Disk.isSome_of_isFile file)
    have there := Disk.isDirectory_iff.1 directory
    have resolves : p.resolve store.historyDirectory = .ok (p.root.extend store.directory) :=
      p.resolve_of_normal plain.normal
    rcases Disk.locate_extend_of_held located
        (by rw [there]; rfl : (p.disk.get? (store.directory.reverse ++ above)).isSome) with
      here | ⟨text, long⟩
    · simp [Project.isDirectory, Project.status, resolves, Disk.status, here, there,
        bind, Except.bind, Except.map] at h
    · simp [Project.isDirectory, Project.status, resolves, Disk.status, long, bind, Except.bind,
        Except.map] at h

/-- What the history holds. -/
theorem mem_historyFiles_iff (plain : store.IsPlain) (opened : p.IsOpen)
    (h : store.historyFiles p = .ok files) :
    path ∈ files ↔ ∃ stem : String, path = store.entryPath (stem ++ ".json") ∧
      (p.contentAt (store.directory ++ [stem ++ ".json"])).isSome = true := by
  rcases historyFiles_eq_ok.1 h with ⟨-, found⟩ | ⟨absent, rfl⟩
  · obtain ⟨above, located⟩ := opened
    obtain ⟨pattern, spelled, listed⟩ := Project.disk_glob_of_glob found
    obtain rfl := Except.ok.inj ((ofText_pattern plain).symm.trans spelled)
    have down : ∀ name, GlobStep.name name ∈ store.steps → name ≠ ".." := by
      rintro name mem rfl
      have inside : ".." ∈ store.directory := by simpa [steps] using mem
      exact absurd (plain.named ".." inside) (by decide)
    rw [Disk.mem_glob_iff down rfl located listed]
    constructor
    · rintro ⟨names, rfl, -, fits, file⟩
      obtain ⟨stem, rfl⟩ := matches_steps_iff.1 fits
      exact ⟨stem, (store.entryPath_eq_join _).symm, (Project.isFile_iff_contentAt located).1 file⟩
    · rintro ⟨stem, rfl, held⟩
      exact ⟨_, store.entryPath_eq_join _,
        by simp, matches_steps_iff.2 ⟨stem, rfl⟩, (Project.isFile_iff_contentAt located).2 held⟩
  · refine iff_of_false List.not_mem_nil ?_
    rintro ⟨stem, -, held⟩
    rw [contentAt_of_isDirectory plain opened absent] at held
    cases held

/-- The history is listed in the order of the paths. -/
theorem pairwise_historyFiles (h : store.historyFiles p = .ok files) : files.Pairwise (· < ·) := by
  rcases historyFiles_eq_ok.1 h with ⟨-, found⟩ | ⟨-, rfl⟩
  · obtain ⟨pattern, -, listed⟩ := Project.disk_glob_of_glob found
    exact Disk.pairwise_glob listed
  · exact .nil

/-- Listing the history succeeds where the way to its directory is open, unless the search is
refused. -/
theorem exists_historyFiles (plain : store.IsPlain) {place : Place}
    (here : p.place? store.historyDirectory = some place)
    (permitted : p.permit .glob (store.historyDirectory ++ "/*.json") = .ok ()) :
    ∃ files, store.historyFiles p = .ok files := by
  obtain ⟨resolved, resolves, located⟩ := Project.place?_eq_some.1 here
  have there : ∃ isThere, p.isDirectory store.historyDirectory = .ok isThere := by
    simp [Project.isDirectory, Project.status, resolves, Disk.status, located, bind,
      Except.bind, Except.map]
  obtain ⟨isThere, status⟩ := there
  cases isThere with
  | false => exact ⟨[], historyFiles_eq_ok.2 (.inr ⟨status, rfl⟩)⟩
  | true =>
    rw [p.resolve_of_normal plain.normal] at resolves
    obtain rfl := Except.ok.inj resolves
    obtain ⟨-, short, walked⟩ := Disk.locate_eq_ok.1 located
    obtain ⟨above, root, inside⟩ := Disk.walk_append.1 walked
    have down : ∀ name ∈ store.directory, name ≠ ".." := by
      rintro name mem rfl
      exact absurd (plain.named ".." mem) (by decide)
    have named := Disk.short_of_walk down inside
    have found : ∃ files, p.disk.glob p.root ⟨store.steps, false⟩ = .ok files := by
      obtain ⟨start, begins⟩ := Disk.exists_locate_of_extend located
      by_cases directory : p.disk.isDirectory start = true
      · have whole : isTooLongPath (p.root.extend ([] ++ store.directory)).text = false := short
        obtain ⟨lists, selected⟩ :
          ∃ lists, p.disk.select p.root false store.steps start [] = .ok lists :=
          Disk.exists_select named whole
        exact ⟨_, by simp only [Disk.glob, begins, directory, if_true, selected]; rfl⟩
      · exact ⟨[], by simp only [Disk.glob, begins, if_neg directory]⟩
    obtain ⟨files, found⟩ := found
    refine ⟨files, historyFiles_eq_ok.2 (.inl ⟨status, ?_⟩)⟩
    simp only [Project.glob, permitted, ofText_pattern plain, found, bind, Except.bind]
    rfl

end Store
end Scaffold
