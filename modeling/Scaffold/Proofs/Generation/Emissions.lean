import Scaffold.Proofs.Dependency.Order
import Scaffold.Proofs.Generation.Steps

/-!
# What a run makes and what a schema requires

The files that a run makes and the entries that a schema requires are found independently of each
other. Each file that is made fulfils an entry, and a run of all components leaves no entry out:
`Emission.artifact_mem` and `Emission.exists_of_required`.

An entry is the pattern of a migration, or it is the path of a file in one of a few directories.
With plain names such a path is normal and no pattern, and no pattern of a migration stands for it.
-/

namespace Scaffold
set_option autoImplicit false

namespace Schema

variable {s : Schema} {entry : String}

theorem mem_requiredArtifacts : entry ∈ s.requiredArtifacts ↔ entry ∈ Artifact.alwaysRequired ∨
    (∃ e ∈ s.entities.values, entry ∈ Artifact.ofEntity e) ∨
    (∃ name ∈ s.pivots.keys, entry = Artifact.migrationPattern (Artifact.creationSuffix name)) ∨
    (s.auth.enabled = true ∧ entry = Artifact.authControllerPath) := by
  rw [requiredArtifacts, distinctSorted, sortTexts, mem_sortOn, List.mem_eraseDups]
  simp only [List.mem_append, List.mem_flatMap, List.mem_map, or_assoc]
  refine or_congr_right (or_congr_right (or_congr ?_ ?_))
  · simp only [eq_comm]
  · split <;> rename_i enabled <;> simp [enabled]

end Schema

namespace Emission

/-- The entry of the requirements that a file fulfils. -/
def artifact : Emission → String
  | .whole _ path _ _ => path
  | .merged _ path _ _ _ _ _ => path
  | .migration suffix _ _ => Artifact.migrationPattern suffix

variable {s : Schema} {options : Options} {order : List String} {emission : Emission}
  {entry : String}

/-- A file that is made only of an included component that is present. -/
theorem exists_of_when {included present : Bool} {one : Emission} :
    (∃ emission ∈ (if included && present then [one] else []), emission.artifact = entry) ↔
      included = true ∧ entry ∈ if present then [one.artifact] else [] := by
  cases included <;> cases present <;> simp [eq_comm]

/-- The files of an entity, by what they fulfil. -/
theorem exists_of_ofEntity {e : Entity} :
    (∃ emission ∈ ofEntity s options e, emission.artifact = entry) ↔
    (options.includes .models = true ∧ entry ∈ [Artifact.modelPath e]) ∨
    (options.includes .migrations = true ∧ entry ∈ (Artifact.migrationPattern? e).toList) ∨
    (options.includes .controllers = true ∧
      entry ∈ if e.hasRoutes then [Artifact.controllerPath e] else []) ∨
    (options.includes .factories = true ∧
      entry ∈ if e.hasFactory then [Artifact.factoryPath e] else []) ∨
    (options.includes .seeders = true ∧ entry ∈ if e.seeder then [Artifact.seederPath e] else []) ∨
    (options.includes .policies = true ∧
      entry ∈ if e.hasPolicies then [Artifact.policyPath e] else []) ∨
    (options.includes .observers = true ∧ entry ∈ if e.hasObservers then [Artifact.observerPath e]
      else []) := by
  simp only [ofEntity, List.mem_append, or_and_right, exists_or, exists_of_when, or_assoc]
  refine or_congr (by simp [artifact]) (or_congr_left ?_)
  cases suffix : Artifact.migrationSuffix? e with
  | none => simp [Artifact.migrationPattern?, suffix]
  | some suffix' =>
    simp only [Artifact.migrationPattern?, suffix, exists_of_when, if_true, Option.map_some,
      Option.toList_some]
    rfl

/-- What is made of an entity, the entity requires. -/
theorem artifact_mem_ofEntity {e : Entity} (mem : emission ∈ ofEntity s options e) :
    emission.artifact ∈ Artifact.ofEntity e := by
  simp only [Artifact.ofEntity, List.mem_append, or_assoc]
  rcases exists_of_ofEntity.1 ⟨emission, mem, rfl⟩ with
    ⟨-, is⟩ | ⟨-, is⟩ | ⟨-, is⟩ | ⟨-, is⟩ | ⟨-, is⟩ | ⟨-, is⟩ | ⟨-, is⟩ <;>
      simp only [is, true_or, or_true]

/-- What an entity requires is made of it when all components are. -/
theorem exists_of_mem_ofEntity {e : Entity} (all : options.only = [])
    (mem : entry ∈ Artifact.ofEntity e) :
    ∃ emission ∈ ofEntity s options e, emission.artifact = entry := by
  have included : ∀ component, options.includes component = true := by simp [Options.includes, all]
  simp only [exists_of_ofEntity, included, true_and]
  simp only [Artifact.ofEntity, List.mem_append, or_assoc] at mem
  rcases mem with is | is | is | is | is | is | is <;> simp only [is, true_or, or_true]

theorem exists_of_common : (∃ emission ∈ common s options order, emission.artifact = entry) ↔
    (options.includes .routes = true ∧ entry = Artifact.routesPath) ∨
    (options.includes .seeders = true ∧ entry = Artifact.databaseSeederPath) ∨
    (options.includes .providers = true ∧
      (entry = Artifact.authProviderPath ∨ entry = Artifact.observerProviderPath)) ∨
    (options.includes .auth = true ∧ s.auth.enabled = true ∧
      entry = Artifact.authControllerPath) := by
  have seeder : (databaseSeeder s options.mode order).artifact = Artifact.databaseSeederPath := by
    unfold databaseSeeder
    split <;> rfl
  simp only [common, List.mem_append, or_and_right, exists_or, or_assoc]
  refine or_congr ?_ (or_congr ?_ (or_congr ?_ ?_))
  · split <;> rename_i included <;> simp [included, artifact, eq_comm]
  · split <;> rename_i included <;> simp [included, seeder, eq_comm]
  · split <;> rename_i included <;> simp [included, artifact, eq_comm]
  · rw [exists_of_when]
    simp [artifact]

/-- Every file that a run makes fulfils an entry of the requirements. -/
theorem artifact_mem (mem : emission ∈ ofSchema s options order) :
    emission.artifact ∈ s.requiredArtifacts := by
  rw [Schema.mem_requiredArtifacts]
  simp only [ofSchema, List.mem_append] at mem
  rcases mem with (mem | mem) | mem
  · obtain ⟨e, isEntity, mem⟩ := List.mem_flatMap.1 mem
    obtain ⟨name, -, found⟩ := List.mem_filterMap.1 isEntity
    exact .inr (.inl ⟨e, List.mem_map_of_mem (OrderedMap.mem_of_get? found),
      artifact_mem_ofEntity mem⟩)
  · split at mem
    · obtain ⟨pivot, isPivot, rfl⟩ := List.mem_map.1 mem
      obtain ⟨entry, isEntry, rfl⟩ := List.mem_map.1 isPivot
      refine .inr (.inr (.inl ⟨entry.1, List.mem_map_of_mem isEntry, ?_⟩))
      rw [ofPivot, artifact, s.pivots_named entry isEntry]
    · exact absurd mem List.not_mem_nil
  · rcases exists_of_common.1 ⟨emission, mem, rfl⟩ with ⟨-, is⟩ | ⟨-, is⟩ | ⟨-,
      is | is⟩ | ⟨-, enabled, is⟩
    · exact .inl (by simp [is, Artifact.alwaysRequired])
    · exact .inl (by simp [is, Artifact.alwaysRequired])
    · exact .inl (by simp [is, Artifact.alwaysRequired])
    · exact .inl (by simp [is, Artifact.alwaysRequired])
    · exact .inr (.inr (.inr ⟨enabled, is⟩))

/-- A run of all components makes a file for every entry of the requirements. -/
theorem exists_of_required (all : options.only = []) (required : entry ∈ s.requiredArtifacts) :
    ∃ emission ∈ ofSchema s options s.dependencyOrder, emission.artifact = entry := by
  have included : ∀ component, options.includes component = true := by simp [Options.includes, all]
  have common : (∃ emission ∈ common s options s.dependencyOrder, emission.artifact = entry) →
      ∃ emission ∈ ofSchema s options s.dependencyOrder, emission.artifact = entry := by
    rintro ⟨emission, mem, is⟩
    exact ⟨emission, List.mem_append_right _ mem, is⟩
  rcases Schema.mem_requiredArtifacts.1 required with always | ⟨e, isEntity, mem⟩ | ⟨name, isPivot,
    rfl⟩ | ⟨enabled, is⟩
  · refine common (exists_of_common.2 ?_)
    simp only [Artifact.alwaysRequired, List.mem_cons, List.not_mem_nil, or_false] at always
    simp only [included, true_and]
    rcases always with is | is | is | is <;> simp only [is, true_or, or_true]
  · obtain ⟨⟨name, e⟩, isEntry, rfl⟩ := List.mem_map.1 isEntity
    obtain ⟨emission, isMade, is⟩ := exists_of_mem_ofEntity (s := s) all mem
    have ordered : name ∈ s.dependencyOrder :=
      s.dependencyOrder_perm.mem_iff.2 (List.mem_map_of_mem isEntry)
    refine ⟨emission, List.mem_append_left _
      (List.mem_append_left _ (List.mem_flatMap.2 ⟨e, ?_, isMade⟩)), is⟩
    exact List.mem_filterMap.2 ⟨name, ordered, OrderedMap.get?_eq_some.2 isEntry⟩
  · obtain ⟨⟨name, pivot⟩, isEntry, rfl⟩ := List.mem_map.1 isPivot
    refine ⟨ofPivot pivot, List.mem_append_left _ (List.mem_append_right _ ?_), ?_⟩
    · rw [if_pos (included .migrations)]
      exact List.mem_map_of_mem (List.mem_map_of_mem isEntry)
    · rw [ofPivot, artifact, s.pivots_named _ isEntry]
  · refine common (exists_of_common.2 ?_)
    simp only [included, true_and, enabled, is, or_true]

end Emission
/-! ## The forms of required entries -/

namespace Artifact

/-- The directories of generated files that are no migrations. -/
def fileDirectories : List String :=
  ["routes", "database/seeders", "app/Providers", "app/Http/Controllers", "app/Models",
    "database/factories", "app/Policies", "app/Observers"]

/-- The names of the files that belong to no entity, without their extension. -/
def commonStems : List String :=
  ["api", "DatabaseSeeder", "AuthServiceProvider", "ObserverServiceProvider", "AuthController"]

/-- What follows the class of an entity in the names of its files. -/
def tails : List String := ["", "Controller", "Factory", "Seeder", "Policy", "Observer"]

/-- The path of a page of code. -/
def pagePath (directory stem : String) : String := directory ++ "/" ++ (stem ++ ".php")

variable {suffix : String} {e : Entity}

/-- An ending tells the table. -/
theorem table_of_migrationSuffix? (is : migrationSuffix? e = some suffix) :
    (e.table = "users" ∧ suffix = usersSuffix) ∨
    (e.table ≠ "users" ∧ suffix = creationSuffix e.table) := by
  unfold migrationSuffix? at is
  split at is
  · rename_i users
    exact .inl ⟨eq_of_beq users, (Option.some.inj is).symm⟩
  · rename_i others
    split at is
    · cases is
    · exact .inr ⟨fun same => others (beq_iff_eq.2 same), (Option.some.inj is).symm⟩

/-- A page stands in a directory of the project, below one of three at its root. -/
theorem names_pagePath {directory : String} (h : directory ∈ fileDirectories) (stem : String) :
    ∃ root ∈ ["routes", "database", "app"], ∃ rest,
    namesOf (pagePath directory stem) = root :: rest := by
  have front : ∀ directory ∈ fileDirectories, ∃ root ∈ ["routes", "database", "app"],
      (namesOf directory).head? = some root := by
    decide
  obtain ⟨root, isRoot, first⟩ := front directory h
  obtain ⟨rest, names⟩ := List.head?_eq_some_iff.1 first
  exact ⟨root, isRoot, rest ++ namesOf (stem ++ ".php"),
    by rw [pagePath, namesOf_append, names, List.cons_append]⟩

end Artifact

namespace Schema

/-- The names of the files of a schema that are no migrations, without their extension. -/
def pageStems (s : Schema) : List String :=
  Artifact.commonStems ++ s.entities.values.flatMap fun e => Artifact.tails.map (e.className ++ ·)

/-- How the names of the migrations of a schema end. -/
def migrationSuffixes (s : Schema) : List String :=
  s.entities.values.filterMap Artifact.migrationSuffix? ++ s.pivots.keys.map Artifact.creationSuffix

/-- A file of the schema that is no migration. -/
def IsPage (s : Schema) (path : String) : Prop :=
  ∃ directory ∈ Artifact.fileDirectories, ∃ stem ∈ s.pageStems,
    path = Artifact.pagePath directory stem

variable {s : Schema} {entry suffix : String}

/-- An ending is that of the users' table, or of another one that a model or a pivot brings. -/
theorem migrationSuffix_cases (h : suffix ∈ s.migrationSuffixes) : suffix = Artifact.usersSuffix ∨
    (∃ e ∈ s.entities.values, suffix = Artifact.creationSuffix e.table) ∨
      ∃ name ∈ s.pivots.keys, suffix = Artifact.creationSuffix name := by
  rcases List.mem_append.1 h with own | ofPivot
  · obtain ⟨e, isEntity, is⟩ := List.mem_filterMap.1 own
    rcases Artifact.table_of_migrationSuffix? is with ⟨-, users⟩ | ⟨-, creation⟩
    · exact .inl users
    · exact .inr (.inl ⟨e, isEntity, creation⟩)
  · obtain ⟨name, isPivot, same⟩ := List.mem_map.1 ofPivot
    exact .inr (.inr ⟨name, isPivot, same.symm⟩)

end Schema

namespace Emission

variable {s : Schema} {options : Options} {order : List String} {emission : Emission}

/-- What is made: a migration with an ending of the schema, a page, or a section of the routes or of
the seeder of the database. -/
inductive IsMade (s : Schema) : Emission → Prop where
  | migration (suffix : String) (text : Except Text.NumeralError String) (metadata : Json.Members)
      (isSuffix : suffix ∈ s.migrationSuffixes) : IsMade s (.migration suffix text metadata)
  | whole (kind : ArtifactKind) (path : String) (text : Except Text.NumeralError String)
      (metadata : Json.Members) (page : s.IsPage path) : IsMade s (.whole kind path text metadata)
  | merged (kind : ArtifactKind) (path : String) (markers : Markers) (body : List String)
      (fresh : String) (anchor : Option String) (indent : String)
      (isPath : path ∈ [Artifact.routesPath, Artifact.databaseSeederPath]) :
      IsMade s (.merged kind path markers body fresh anchor indent)

theorem isMade_of_when {included : Bool} {one emission : Emission} (isMade : one.IsMade s)
    (mem : emission ∈ if included then [one] else []) : emission.IsMade s := by
  cases included with
  | false => exact absurd mem List.not_mem_nil
  | true =>
    obtain rfl := List.mem_singleton.1 mem
    exact isMade

/-- A page of an entity stands in one of a few directories and is named by its class. -/
theorem isPage_of_entity {e : Entity} (isEntity : e ∈ s.entities.values) (directory tail : String)
    {full ending : String} (front : full = directory ++ "/") (back : ending = tail ++ ".php")
    (isDirectory : directory ∈ Artifact.fileDirectories)
    (isTail : tail ∈ Artifact.tails) : s.IsPage (full ++ e.className ++ ending) := by
  refine ⟨directory, isDirectory, e.className ++ tail, List.mem_append_right _ ?_, ?_⟩
  · exact List.mem_flatMap.2 ⟨e, isEntity, List.mem_map_of_mem isTail⟩
  · rw [front, back, Artifact.pagePath]
    simp only [String.append_assoc]

theorem isPage_of_common {path : String}
    (page : ∃ directory ∈ Artifact.fileDirectories, ∃ stem ∈ Artifact.commonStems,
      path = Artifact.pagePath directory stem) : s.IsPage path := by
  obtain ⟨directory, isDirectory, stem, isStem, is⟩ := page
  exact ⟨directory, isDirectory, stem, List.mem_append_left _ isStem, is⟩

theorem isMade_of_ofEntity {e : Entity} {emission : Emission} (isEntity : e ∈ s.entities.values)
    (mem : emission ∈ ofEntity s options e) : emission.IsMade s := by
  simp only [ofEntity, List.mem_append] at mem
  rcases mem with (((((mem | mem) | mem) | mem) | mem) | mem) | mem
  · exact isMade_of_when (.whole _ _ _ _ (isPage_of_entity isEntity "app/Models" "" (by decide)
      (by decide) (by decide) (by decide))) mem
  · split at mem
    · rename_i suffix own
      have isSuffix : suffix ∈ s.migrationSuffixes :=
        List.mem_append_left _ (List.mem_filterMap.2 ⟨e, isEntity, own⟩)
      exact isMade_of_when (.migration suffix _ _ isSuffix) mem
    · exact absurd mem List.not_mem_nil
  · exact isMade_of_when (.whole _ _ _ _
      (isPage_of_entity isEntity "app/Http/Controllers" "Controller" (by decide) (by decide)
        (by decide) (by decide))) mem
  · exact isMade_of_when (.whole _ _ _ _
      (isPage_of_entity isEntity "database/factories" "Factory" (by decide) (by decide) (by decide)
        (by decide))) mem
  · exact isMade_of_when (.whole _ _ _ _
      (isPage_of_entity isEntity "database/seeders" "Seeder" (by decide) (by decide) (by decide)
        (by decide))) mem
  · exact isMade_of_when (.whole _ _ _ _
      (isPage_of_entity isEntity "app/Policies" "Policy" (by decide) (by decide) (by decide)
        (by decide))) mem
  · exact isMade_of_when (.whole _ _ _ _
      (isPage_of_entity isEntity "app/Observers" "Observer" (by decide) (by decide) (by decide)
        (by decide))) mem

theorem isMade_of_common {emission : Emission} (mem : emission ∈ common s options order) :
    emission.IsMade s := by
  have seeder : (databaseSeeder s options.mode order).IsMade s := by
    unfold databaseSeeder
    split
    · exact .merged _ _ _ _ _ _ _ (List.mem_cons_of_mem _ (List.mem_cons_self ..))
    · exact .whole _ _ _ _ (isPage_of_common (by decide))
  simp only [common, List.mem_append] at mem
  rcases mem with ((mem | mem) | mem) | mem
  · exact isMade_of_when (.merged _ _ _ _ _ _ _ (List.mem_cons_self ..)) mem
  · exact isMade_of_when seeder mem
  · split at mem
    · rcases List.mem_cons.1 mem with rfl | mem
      · exact .whole _ _ _ _ (isPage_of_common (by decide))
      · obtain rfl := List.mem_singleton.1 mem
        exact .whole _ _ _ _ (isPage_of_common (by decide))
    · exact absurd mem List.not_mem_nil
  · exact isMade_of_when (.whole _ _ _ _ (isPage_of_common (by decide))) mem

/-- So is all that a run makes. -/
theorem isMade_of_mem {emission : Emission} (mem : emission ∈ ofSchema s options order) :
    emission.IsMade s := by
  simp only [ofSchema, List.mem_append] at mem
  rcases mem with (mem | mem) | mem
  · obtain ⟨e, isEntity, mem⟩ := List.mem_flatMap.1 mem
    obtain ⟨name, -, found⟩ := List.mem_filterMap.1 isEntity
    exact isMade_of_ofEntity (List.mem_map_of_mem (OrderedMap.mem_of_get? found)) mem
  · split at mem
    · obtain ⟨pivot, isPivot, rfl⟩ := List.mem_map.1 mem
      obtain ⟨entry, isEntry, rfl⟩ := List.mem_map.1 isPivot
      refine .migration _ _ _
        (List.mem_append_right _ (List.mem_map.2 ⟨entry.1, List.mem_map_of_mem isEntry, ?_⟩))
      rw [s.pivots_named entry isEntry]
    · exact absurd mem List.not_mem_nil
  · exact isMade_of_common mem

/-- The file of a section is a page too. -/
theorem isPage_of_merged {path : String}
    (isPath : path ∈ [Artifact.routesPath, Artifact.databaseSeederPath]) : s.IsPage path := by
  have pages : ∀ path ∈
      [Artifact.routesPath, Artifact.databaseSeederPath], ∃ directory ∈ Artifact.fileDirectories,
      ∃ stem ∈ Artifact.commonStems, path = Artifact.pagePath directory stem := by decide
  exact isPage_of_common (pages path isPath)

end Emission

/-- What a schema requires is found by what a run of all components makes: the pattern of a
migration, or a page. -/
theorem Schema.required_cases {s : Schema} {entry : String} (h : entry ∈ s.requiredArtifacts) :
    (∃ suffix ∈ s.migrationSuffixes, entry = Artifact.migrationPattern suffix) ∨
    s.IsPage entry := by
  have all : ({} : Options).only = [] := rfl
  obtain ⟨emission, mem, rfl⟩ := Emission.exists_of_required all h
  cases Emission.isMade_of_mem mem with
  | migration suffix text metadata isSuffix => exact .inl ⟨suffix, isSuffix, rfl⟩
  | whole kind path text metadata page => exact .inr page
  | merged kind path markers body fresh anchor indent isPath =>
    exact .inr (Emission.isPage_of_merged isPath)

namespace Emission

/-- What a run touches when it makes its files lies below three directories at the root of the
project. -/
theorem root_of_touched {s : Schema} {options : Options} {order names : List String}
    {emission : Emission} (mem : emission ∈ ofSchema s options order)
    (touched : emission.Touched names) :
    ∃ root ∈ ["routes", "database", "app"], ∃ rest, names = root :: rest := by
  have page {path : String} (is : s.IsPage path) :
      ∃ root ∈ ["routes", "database", "app"], ∃ rest, namesOf path = root :: rest := by
    obtain ⟨directory, isDirectory, stem, -, rfl⟩ := is
    exact Artifact.names_pagePath isDirectory stem
  cases isMade_of_mem mem with
  | whole kind path text metadata is => exact touched ▸ page is
  | merged kind path markers body fresh anchor indent isPath =>
    exact touched ▸ page (isPage_of_merged isPath)
  | migration suffix text metadata isSuffix =>
    obtain ⟨rest, rfl⟩ := touched
    exact ⟨"database", by decide, "migrations" :: rest, rfl⟩

end Emission
end Scaffold
