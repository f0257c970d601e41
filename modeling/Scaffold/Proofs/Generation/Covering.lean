import Scaffold.Proofs.Generation.Attempting
import Scaffold.Proofs.Generation.Migrations

/-!
# What a search finds and what a pattern covers

The pattern of a table's migrations is read in two ways. A search cuts it at its slashes, so that
its star stands for a part of one name; where it is held against a path as a whole, the star stands
for any characters, slashes among them. So a search finds exactly the files of a tree which the
pattern covers without a slash for its star (`Artifact.mem_glob_iff`), and the files that a clean
run deletes, the records that it forgets and the paths that are kept as required are the same
exactly when no file of the tree has a slash there (`Artifact.agrees_iff`).
-/

namespace Scaffold
set_option autoImplicit false

namespace Project

variable {p : Project} {path : String}

/-- A path is that of a file in the tree of the project. -/
def IsListed (p : Project) (path : String) : Prop := ∃ content, p.HasFile path content

theorem isListed_iff (normal : Path.IsNormal path) (opened : p.IsOpen) :
    p.IsListed path ↔ (p.contentAt (namesOf path)).isSome = true := by
  rw [Option.isSome_iff_exists]
  exact exists_congr fun _ => ⟨fun held => held.2.2, fun held => ⟨normal, opened, held⟩⟩

/-- A file in the tree is an entry of the disk, below the root of the project. -/
theorem mem_entries_of_isListed {above : Place} (located : p.disk.locate p.root = .ok above)
    (listed : p.IsListed path) :
    ∃ content, ((Text.split '/' path).reverse ++ above, Entry.file content) ∈ p.disk.entries := by
  obtain ⟨content, normal, -, held⟩ := listed
  have file := isFile_of_contentAt located held
  rw [namesOf_of_normal normal] at file
  have below : (Text.split '/' path).reverse ++ above ≠ [] := by
    simp [Text.split, Chars.split_ne_nil]
  unfold Disk.isFile at file
  split at file
  · rename_i content' entry
    exact ⟨content', (Disk.get?_eq_some below).1 entry⟩
  · cases file

/-- A file of the tree may not be found, deleted, forgotten or required but all at once: what a
search for a pattern has found are the files that the pattern covers, of the files of the tree those
are gone when they were deleted, are no longer tracked when the pattern was forgotten, and are kept
where the pattern is required. -/
structure Agrees (p : Project) (pattern : String) (found : List String) : Prop where
  finds : ∀ path, path ∈ found ↔ p.IsListed path ∧ Pattern.covers pattern path = true
  deletes : ∀ (kind : ArtifactKind)
    (run after : Run), run.project = p → Run.deleteAll kind found run = (.ok true, after) →
    ∀ path, p.IsListed path → (¬ after.project.IsListed path ↔ path ∈ found)
  forgets : ∀ (run after : Run) (m left : Manifest), run.reconciliation.manifest? = some m →
    Run.forgetCovered pattern run = .ok after → after.reconciliation.manifest? = some left →
      ∀ path ∈ m.trackedPaths, p.IsListed path → (path ∉ left.trackedPaths ↔ path ∈ found)
  keeps : ∀ path, p.IsListed path → (Pattern.anyCovers [pattern] path = true ↔ path ∈ found)

end Project

namespace Run

variable {run after : Run} {kind : ArtifactKind} {path pattern : String} {paths : List String}

/-- Of the files of the tree, those are gone that were deleted. -/
theorem not_isListed_iff_of_deleteAll (normal : ∀ path ∈ paths, Path.IsNormal path)
    (h : deleteAll kind paths run = (.ok true, after)) (listed : run.project.IsListed path) :
    ¬ after.project.IsListed path ↔ path ∈ paths := by
  obtain ⟨content, isNormal, opened, held⟩ := listed
  obtain ⟨-, touches, gone⟩ := cleared_of_deleteAll opened h
  constructor
  · refine fun missing => Decidable.of_not_not fun apart => missing ⟨content, isNormal,
      opened.of_keeps touches.same touches.keeps, ?_⟩
    rw [touches.contents _ ?_, held]
    rintro ⟨other, mem, names⟩
    rw [namesOf_of_normal isNormal, namesOf_of_normal (normal other mem)] at names
    exact apart (by rwa [← Text.join_split path, ← names, Text.join_split])
  · rintro mem ⟨content', -, -, held'⟩
    cases (gone path mem).symm.trans held'

/-- Of the tracked paths, those are forgotten that the pattern covers. -/
theorem not_tracked_iff_of_forgetCovered {m left : Manifest}
    (known : run.reconciliation.manifest? = some m)
    (h : forgetCovered pattern run = .ok after)
    (known' : after.reconciliation.manifest? = some left)
    (tracked : path ∈ m.trackedPaths) :
    path ∉ left.trackedPaths ↔ Pattern.covers pattern path = true := by
  obtain ⟨m', left', isKnown, rfl, records⟩ := forgetCovered_eq_ok h
  obtain rfl := Option.some.inj (known.symm.trans isKnown)
  obtain rfl := Option.some.inj known'
  obtain ⟨r, isRecord, rfl⟩ := Manifest.mem_trackedPaths.1 tracked
  rw [← Bool.not_eq_false, not_iff_not, Manifest.mem_trackedPaths]
  constructor
  · rintro ⟨other, isLeft, same⟩
    exact same ▸ ((records other).1 isLeft).2
  · exact fun apart => ⟨r, (records r).2 ⟨isRecord, apart⟩, rfl⟩

end Run

namespace Artifact

variable {p : Project} {suffix : String} {found : List String} {path : String}

theorem isPattern_creationSuffix {name : String} (literal : Pattern.isPattern name = false) :
    Pattern.isPattern (creationSuffix name) = false := by
  have front : Pattern.isPattern "_create_" = false := by decide
  have back : Pattern.isPattern "_table.php" = false := by decide
  rw [Pattern.isPattern_eq_false] at literal front back ⊢
  rw [creationSuffix, String.toList_append, String.toList_append]
  exact (front.append literal).append back

/-- A pattern of migrations covers what begins and ends as it does. -/
theorem covers_iff (literal : Pattern.isPattern suffix = false) :
    Pattern.covers (migrationPattern suffix) path = true ↔
    ∃ stem, path = Text.join "/" Run.migrationNames ++ "/" ++ (stem ++ suffix) := by
  have spelled :
      migrationPattern suffix = Text.join "/" Run.migrationNames ++ "/" ++ "*" ++ suffix := by
    rw [Run.migrationPattern_eq]
    simp only [String.append_assoc]
  rw [spelled, Pattern.covers_star (by decide) literal]

/-- The names of a path among the migrations. -/
theorem split_migrations (back : String) :
    Text.split '/' (Text.join "/" Run.migrationNames ++ "/" ++ back) =
    Run.migrationNames ++ Text.split '/' back := by
  rw [Text.split_append, Text.split_join (by decide) (by decide)]

/-- Only a normal pattern covers normal paths. -/
theorem isNormal_of_covers (literal : Pattern.isPattern suffix = false)
    (covered : Pattern.covers (migrationPattern suffix) path = true)
    (normal : Path.IsNormal path) : Path.IsNormal (migrationPattern suffix) := by
  obtain ⟨stem, rfl⟩ := (covers_iff literal).1 covered
  cases pieces : Text.split '/' suffix with
  | nil => exact absurd (List.map_eq_nil_iff.1 pieces) (Chars.split_ne_nil '/' suffix.toList)
  | cons head rest =>
    obtain ⟨before, last, -, cut, -⟩ := Text.exists_split_append pieces stem
    obtain ⟨_, _, -, starred, one⟩ := Text.exists_split_append pieces "*"
    obtain ⟨rfl, rfl⟩ := one (by decide)
    intro name mem
    rw [Run.migrationPattern_eq, split_migrations, starred, List.nil_append, List.mem_append,
      List.mem_cons] at mem
    rcases mem with front | rfl | other
    · have all : ∀ name ∈ Run.migrationNames, name ≠ "" ∧ name ≠ "." ∧ name ≠ ".." := by decide
      exact all name front
    · have first : ("*" ++ head).toList.head? = some '*' := by simp
      refine ⟨?_, ?_, ?_⟩ <;>
      · intro same
        rw [same] at first
        exact absurd first (by decide)
    · refine normal name ?_
      rw [split_migrations, cut]
      simp [other]

/-- A normal pattern of migrations leads to the names whose third ends as that of the pattern. -/
theorem matches_iff (literal : Pattern.isPattern suffix = false)
    (normal : Path.IsNormal (migrationPattern suffix))
    {head : String} {rest : List String}
    (pieces : Text.split '/' suffix = head :: rest) : ∃ pattern,
      Glob.ofText (migrationPattern suffix) = .ok pattern ∧
      (∀ name, GlobStep.name name ∈ pattern.steps → name ≠ "..") ∧
      ∀ names, GlobStep.Matches pattern.steps names ↔ ∃ stem : String,
      names = Run.migrationNames ++ (stem ++ head) :: rest := by
  obtain ⟨_, _, -, starred, one⟩ := Text.exists_split_append pieces "*"
  obtain ⟨rfl, rfl⟩ := one (by decide)
  have isPlain (piece : String) (mem : piece ∈ head :: rest) : Pattern.isPattern piece = false :=
    Pattern.isPattern_eq_false.2 fun c inside =>
      Pattern.isPattern_eq_false.1 literal c (Text.mem_of_mem_split (pieces ▸ mem) inside)
  obtain ⟨headPlain, restPlain⟩ := List.forall_mem_cons.1 isPlain
  have steps : (Text.split '/' (migrationPattern suffix)).mapM Glob.stepOf =
      .ok (Run.migrationNames.map .name ++ .fitting (Pattern.parts ("*" ++ head).toList) ::
        rest.map .name) := by
    rw [Run.migrationPattern_eq, split_migrations, starred, mapM_eq_ok]
    have front : Run.migrationNames.mapM Glob.stepOf = .ok (Run.migrationNames.map .name) :=
      Glob.steps_of_plain (by decide)
    exact List.rel_append (mapM_eq_ok.1 front)
      (.cons (Glob.stepOf_star headPlain) (mapM_eq_ok.1 (Glob.steps_of_plain restPlain)))
  have spelled := Glob.ofText_of_normal normal
  rw [steps] at spelled
  refine ⟨_, spelled, ?_, fun names => ?_⟩
  · rcases Glob.ofText_cases normal with wrong | ⟨pattern, spelled', down⟩
    · cases wrong.symm.trans spelled
    · obtain rfl := Except.ok.inj (spelled.symm.trans spelled')
      exact down
  · have star (name : String) :
        Pattern.recognizes (Pattern.parts ("*" ++ head).toList) name.toList = true ↔
        ∃ stem : String, name = stem ++ head := Pattern.covers_ending headPlain
    simp only [Run.migrationNames, List.map_cons, List.map_nil, List.cons_append, List.nil_append,
      GlobStep.matches_name_iff, GlobStep.matches_fitting_iff, GlobStep.matches_names_iff, star]
    constructor
    · rintro ⟨_, rfl, _, rfl, _, _, rfl, ⟨stem, rfl⟩, rfl⟩
      exact ⟨stem, rfl⟩
    · rintro ⟨stem, rfl⟩
      exact ⟨_, rfl, _, rfl, _, _, rfl, ⟨stem, rfl⟩, rfl⟩

/-- A search for migrations finds the files that its pattern covers with no slash in the place of
the star. -/
theorem mem_glob_iff (literal : Pattern.isPattern suffix = false)
    (php : ∃ stem, suffix = stem ++ ".php") (normal : Path.IsNormal (migrationPattern suffix))
    (h : p.glob (migrationPattern suffix) = .ok found) :
    path ∈ found ↔ p.IsListed path ∧
      ∃ stem, '/' ∉ stem.toList ∧ path = Text.join "/" Run.migrationNames ++ "/" ++
        (stem ++ suffix) := by
  cases pieces : Text.split '/' suffix with
  | nil => exact absurd (List.map_eq_nil_iff.1 pieces) (Chars.split_ne_nil '/' suffix.toList)
  | cons head rest =>
    obtain ⟨pattern, spelled, down, leads⟩ := matches_iff literal normal pieces
    have files : pattern.directories = false :=
      (Glob.directories_of_ofText spelled).trans (endsWith_migrationPattern php)
    have cut (stem : String)
        (clear : '/' ∉ stem.toList) : Text.split '/' (Text.join "/" Run.migrationNames ++ "/" ++
          (stem ++ suffix)) = Run.migrationNames ++ (stem ++ head) :: rest := by
      obtain ⟨_, _, -, together, one⟩ := Text.exists_split_append pieces stem
      obtain ⟨rfl, rfl⟩ := one clear
      rw [split_migrations, together, List.nil_append]
    have isNormal (file : String) (mem : file ∈ found) : Path.IsNormal file := by
      obtain ⟨glob, spelled', isFound⟩ := Project.disk_glob_of_glob h
      obtain rfl := Except.ok.inj (spelled.symm.trans spelled')
      exact (Disk.glob_sound down isFound mem).1
    constructor
    · intro mem
      have opened := Project.isOpen_of_mem_glob h mem
      obtain ⟨matching, held⟩ :=
        (Project.exists_mem_glob_iff opened spelled down files h).1 ⟨path, mem, rfl⟩
      refine ⟨(Project.isListed_iff (isNormal path mem) opened).2 held, ?_⟩
      obtain ⟨stem, names⟩ := (leads _).1 matching
      rw [namesOf_of_normal (isNormal path mem)] at names
      have clear : '/' ∉ stem.toList := fun slash =>
        Text.not_mem_of_mem_split (names ▸ List.mem_append_right _ (List.mem_cons_self ..))
          (by simp [slash])
      exact ⟨stem, clear, by rw [← Text.join_split path, names, ← cut stem clear, Text.join_split]⟩
    · rintro ⟨⟨content, normal', opened, held⟩, stem, clear, rfl⟩
      have names := (namesOf_of_normal normal').trans (cut stem clear)
      obtain ⟨file, mem, same⟩ := (Project.exists_mem_glob_iff opened spelled down files h).2
        ⟨(leads _).2 ⟨stem, names⟩, by rw [held]; rfl⟩
      rw [namesOf_of_normal (isNormal file mem), namesOf_of_normal normal'] at same
      rwa [← Text.join_split file, same, Text.join_split] at mem

/-- A pattern means the same everywhere exactly when a search finds what it covers. -/
theorem agrees_of_finds (literal : Pattern.isPattern suffix = false)
    (finds : ∀ path, path ∈ found ↔ p.IsListed path ∧
      Pattern.covers (migrationPattern suffix) path = true) :
    p.Agrees (migrationPattern suffix) found where
  finds := finds
  deletes := by
    rintro kind run after rfl deleted path listed
    exact Run.not_isListed_iff_of_deleteAll (fun other mem => ((finds other).1 mem).1.choose_spec.1)
      deleted listed
  forgets := fun run after m left known forgotten known' path tracked listed => by
    rw [Run.not_tracked_iff_of_forgetCovered known forgotten known' tracked, finds,
      and_iff_right listed]
  keeps := fun path listed => by
    have itself :
        path = migrationPattern suffix → Pattern.covers (migrationPattern suffix) path = true := by
      rintro rfl
      exact (covers_iff literal).2 ⟨"*", Run.migrationPattern_eq suffix⟩
    rw [finds, and_iff_right listed]
    simpa [Pattern.anyCovers, isPattern_migrationPattern] using itself

/-- A search for the migrations of a table fails, or it, the deletion of what it finds, the records
that are forgotten and the paths that are kept agree exactly when the star stands for no slash in
any file of the tree. -/
theorem agrees_iff {name : String} (literal : Pattern.isPattern name = false) :
    (∃ f, p.glob (migrationPattern (creationSuffix name)) = .error (.failure f)) ∨
      ∃ found, p.glob (migrationPattern (creationSuffix name)) = .ok found ∧
        (p.Agrees (migrationPattern (creationSuffix name)) found ↔
          (Path.IsNormal (migrationPattern (creationSuffix name)) ∨ found = []) ∧
          ∀ stem : String, p.IsListed (migrationsDirectory ++ "/" ++ stem ++ creationSuffix name) →
            '/' ∉ stem.toList) := by
  have literal' := isPattern_creationSuffix literal
  have php : ∃ stem, creationSuffix name = stem ++ ".php" :=
    ⟨"_create_" ++ name ++ "_table", by simp [creationSuffix, String.append_assoc]⟩
  have written (stem : String) : migrationsDirectory ++ "/" ++ stem ++ creationSuffix name =
      Text.join "/" Run.migrationNames ++ "/" ++ (stem ++ creationSuffix name) := by
    have front : Text.join "/" Run.migrationNames = migrationsDirectory := by decide
    rw [front, String.append_assoc]
  simp only [written]
  cases searched : p.glob (migrationPattern (creationSuffix name)) with
  | error cause =>
    rcases Project.glob_error searched with ⟨f, -, rfl⟩ | ⟨wrong, spelled, whole, -⟩
    · exact .inl ⟨f, rfl⟩
    · exact absurd (depthInName_of_migrationPattern spelled) whole
  | ok found =>
    refine .inr ⟨found, rfl, ?_⟩
    by_cases normal : Path.IsNormal (migrationPattern (creationSuffix name))
    · have isFound (path : String) := @mem_glob_iff p _ found path literal' php normal searched
      constructor
      · refine fun agrees => ⟨.inl normal, fun stem listed => ?_⟩
        obtain ⟨-, other, clear, same⟩ :=
          (isFound _).1 ((agrees.finds _).2 ⟨listed, (covers_iff literal').2 ⟨stem, rfl⟩⟩)
        rw [String.append_right_inj, String.append_left_inj] at same
        exact same ▸ clear
      · rintro ⟨-, clear⟩
        refine agrees_of_finds literal' fun path => ?_
        rw [isFound, covers_iff literal']
        refine and_congr_right fun listed => exists_congr fun stem => and_iff_right_of_imp ?_
        rintro rfl
        exact clear stem listed
    · have uncovered (path : String) (listed : p.IsListed path) :
          ¬ Pattern.covers (migrationPattern (creationSuffix name)) path = true := fun covered =>
        normal (isNormal_of_covers literal' covered listed.choose_spec.1)
      constructor
      · refine fun agrees => ⟨.inr (List.eq_nil_iff_forall_not_mem.2 fun path mem => ?_),
          fun stem listed => ?_⟩
        · obtain ⟨listed, covered⟩ := (agrees.finds path).1 mem
          exact uncovered path listed covered
        · exact absurd ((covers_iff literal').2 ⟨stem, rfl⟩) (uncovered _ listed)
      · rintro ⟨isNormal | rfl, -⟩
        · exact absurd isNormal normal
        · exact agrees_of_finds literal' fun path => by simpa using uncovered path

/-- A project with one migration of a table. -/
def taggedProject : Project :=
  (newProject.writeText "database/migrations/2020_01_01_000000_create_tags_table.php" "<?php").2

/-- The search finds the migration, and nothing else in the project is a file. -/
theorem checked_taggedProject : (taggedProject.glob (migrationPattern (creationSuffix "tags")) =
      .ok ["database/migrations/2020_01_01_000000_create_tags_table.php"] ∧
      taggedProject.disk.locate taggedProject.root = .ok ["project"]) ∧
    ∀ entry ∈ taggedProject.disk.entries, entry.2 ≠ .directory →
      entry.1 = ["2020_01_01_000000_create_tags_table.php", "migrations", "database",
        "project"] := by
  decide +kernel

/-- In that project all agrees on the table. -/
theorem agrees_iff_taggedProject : Pattern.isPattern "tags" = false ∧
    taggedProject.Agrees (migrationPattern (creationSuffix "tags"))
      ["database/migrations/2020_01_01_000000_create_tags_table.php"] := by
  have literal : Pattern.isPattern "tags" = false := by decide
  obtain ⟨⟨searched, located⟩, files⟩ := checked_taggedProject
  rcases @agrees_iff taggedProject "tags" literal with ⟨f, failed⟩ | ⟨found, isFound, agrees⟩
  · cases searched.symm.trans failed
  · obtain rfl := Except.ok.inj (searched.symm.trans isFound)
    refine ⟨literal, agrees.2 ⟨.inl (by decide +kernel), fun stem listed => ?_⟩⟩
    obtain ⟨content, isEntry⟩ := Project.mem_entries_of_isListed located listed
    have place : _ ++ ["project"] = ["2020_01_01_000000_create_tags_table.php", "migrations",
      "database"] ++ ["project"] :=
      files _ isEntry (by simp)
    have names : Text.split '/' (migrationsDirectory ++ "/" ++ stem ++ creationSuffix "tags") =
        ["database", "migrations", "2020_01_01_000000_create_tags_table.php"] :=
      List.reverse_injective (List.append_cancel_right place)
    have same := (Text.join_split _).symm.trans (congrArg (Text.join "/") names)
    have written :
        Text.join "/" ["database", "migrations", "2020_01_01_000000_create_tags_table.php"] =
        migrationsDirectory ++ "/" ++ "2020_01_01_000000" ++ creationSuffix "tags" := by decide
    rw [written, String.append_left_inj, String.append_right_inj] at same
    rw [same]
    decide

/-- A project with a migration of the table in a directory among the migrations. -/
def nestedProject : Project :=
  (newProject.writeText "database/migrations/old/2020_01_01_000000_create_tags_table.php" "<?php").2

/-- A file that the pattern of a table covers need not be found by it, so that its record is
forgotten and it stays. -/
theorem nested_migration_not_found :
    ¬ ∀ (p : Project) (name : String) (found : List String), Pattern.isPattern name = false →
    p.glob (migrationPattern (creationSuffix name)) = .ok found →
    p.Agrees (migrationPattern (creationSuffix name)) found := by
  intro claimed
  have searched : nestedProject.glob (migrationPattern (creationSuffix "tags")) = .ok [] := by
    decide +kernel
  have listed :
    nestedProject.IsListed "database/migrations/old/2020_01_01_000000_create_tags_table.php" :=
    ⟨"<?php".toUTF8, by decide, ⟨["project"], by decide +kernel⟩, by decide +kernel⟩
  have covered : Pattern.covers (migrationPattern (creationSuffix "tags"))
      "database/migrations/old/2020_01_01_000000_create_tags_table.php" = true := by decide +kernel
  exact List.not_mem_nil (((claimed _ "tags" _ (by decide) searched).finds _).2 ⟨listed, covered⟩)

end Artifact
end Scaffold
