import Scaffold.Proofs.Generation.Delivery

/-!
# One migration for each table

Before a migration is written, those go whose names end as its own. With plain names these are the
files directly among the migrations with that ending, other tables' too if the ending of one is the
end of another: `_create_tags` is the end of `_create_old_create_tags`.
`Generation.hasOneMigration_iff_of_success` says that a clean run leaves exactly one migration of
each required ending, its own, exactly when that is not so.
-/

namespace Scaffold
set_option autoImplicit false

open Run (migrationNames)

/-- Of the items of a list that have a property, one is the last. -/
theorem exists_last {α : Type} {holds : α → Prop} {items : List α}
    (filled : ∃ item ∈ items, holds item) : ∃ front item back, items = front ++ item :: back ∧
    holds item ∧ ∀ later ∈ back, ¬ holds later := by
  induction items with
  | nil => exact absurd filled (by simp)
  | cons first rest ih =>
    by_cases further : ∃ item ∈ rest, holds item
    · obtain ⟨front, item, back, rfl, isOne, absent⟩ := ih further
      exact ⟨first :: front, item, back, rfl, isOne, absent⟩
    · obtain ⟨item, mem, isOne⟩ := filled
      rcases List.mem_cons.1 mem with rfl | mem
      · exact ⟨[], item, rest, rfl, isOne, fun later isLater holds =>
          further ⟨later, isLater, holds⟩⟩
      · exact absurd ⟨item, mem, isOne⟩ further

/-- A text ends with another one. -/
def EndsWith (suffix text : String) : Prop := suffix.toList <:+ text.toList

theorem endsWith_iff {suffix text : String} :
    EndsWith suffix text ↔ ∃ front, text = front ++ suffix := by
  constructor
  · rintro ⟨front, same⟩
    exact ⟨String.ofList front, String.toList_inj.1 (by simp [same])⟩
  · rintro ⟨front, rfl⟩
    exact ⟨front.toList, by simp⟩

theorem EndsWith.eq_of_length {suffix text : String} (h : EndsWith suffix text)
    (length : text.toList.length ≤ suffix.toList.length) :
    suffix = text :=
  String.toList_inj.1 (List.IsSuffix.eq_of_length_le h length)

namespace Artifact

variable {suffix : String}

/-- The steps of the pattern of migrations with a bare ending. -/
theorem ofText_migrationPattern (bare : IsBare suffix) : Glob.ofText (migrationPattern suffix) =
    .ok ⟨[.name "database", .name "migrations", .fitting (Pattern.parts ("*" ++ suffix).toList)],
      Text.endsWith "/" (migrationPattern suffix)⟩ := by
  have slash : '/' ∉ ("*" ++ suffix).toList := by simpa using bare.not_mem
  have split :
      Text.split '/' (migrationPattern suffix) = ["database", "migrations", "*" ++ suffix] := by
    have front : Text.split '/' (Text.join "/" migrationNames) = ["database", "migrations"] := by
      decide
    rw [Run.migrationPattern_eq, Text.split_append, Text.split_of_not_mem slash, front]
    rfl
  have chars : ("*" ++ suffix).toList = '*' :: suffix.toList := by simp
  have normal : Path.IsNormal (migrationPattern suffix) := by
    intro name mem
    rw [split] at mem
    simp only [List.mem_cons, List.not_mem_nil, or_false] at mem
    rcases mem with rfl | rfl | rfl
    · decide
    · decide
    · refine ⟨?_, ?_, ?_⟩ <;>
      · intro same
        rw [same] at chars
        simp at chars
  have steps : (Text.split '/' (migrationPattern suffix)).mapM Glob.stepOf =
      .ok [.name "database", .name "migrations",
        .fitting (Pattern.parts ("*" ++ suffix).toList)] := by
    rw [split, mapM_eq_ok]
    exact .cons (Glob.stepOf_of_plain (by decide) (by decide))
      (.cons (Glob.stepOf_of_plain (by decide) (by decide))
        (.cons (Glob.stepOf_star bare.isPattern) .nil))
  rw [Glob.ofText_of_normal normal, steps]
  rfl

/-- A star in front of an ending stands for what ends so. -/
theorem recognizes_star (bare : IsBare suffix) {name : String} :
    Pattern.recognizes (Pattern.parts ("*" ++ suffix).toList) name.toList = true ↔
    EndsWith suffix name := by
  rw [← Pattern.covers, Pattern.covers_ending bare.isPattern, endsWith_iff]

/-- The pattern of migrations stands for the files directly among them with its ending. -/
theorem covers_migrationPattern_iff (bare : IsBare suffix) {name : String} :
    Pattern.covers (migrationPattern suffix) (migrationsDirectory ++ "/" ++ name) = true ↔
    EndsWith suffix name := by
  rw [covers_migrationPattern bare, endsWith_iff]
  refine exists_congr fun middle => ?_
  rw [String.append_right_inj]

/-- The names of a migration. -/
theorem namesOf_migrationPath (bare : IsBare suffix) (moment : Moment) :
    namesOf (migrationPath moment suffix) = migrationNames ++ [moment.underscored ++ suffix] := by
  have slash : '/' ∉ (moment.underscored ++ suffix).toList := by
    rw [String.toList_append, List.mem_append, not_or]
    exact ⟨moment.slash_not_mem_underscored, bare.not_mem⟩
  have underscore : '_' ∈ (moment.underscored ++ suffix).toList := by simp [Moment.underscored]
  rw [Run.migrationPath_eq, namesOf_append, Run.namesOf_migrationNames, namesOf_of_not_mem slash]
  · rintro same
    rw [same] at underscore
    exact absurd underscore (by decide)
  · rintro same
    rw [same] at underscore
    exact absurd underscore (by decide)

end Artifact

/-- With a bare ending those files go before a migration is written that are directly among the
migrations and end so. -/
theorem Emission.drops_migration_iff {suffix : String} {text : Except Text.NumeralError String}
    {metadata : Json.Members} (bare : IsBare suffix) {names : List String} :
    (Emission.migration suffix text metadata).Drops names ↔
      ∃ name, names = migrationNames ++ [name] ∧ EndsWith suffix name := by
  simp only [Drops, Artifact.ofText_migrationPattern bare, Except.ok.injEq, exists_eq_left',
    GlobStep.matches_name_iff, GlobStep.matches_fitting_iff, GlobStep.matches_nil_iff,
    Artifact.recognizes_star bare]
  constructor
  · rintro ⟨_, rfl, _, rfl, name, _, rfl, ends, rfl⟩
    exact ⟨name, rfl, ends⟩
  · rintro ⟨name, rfl, ends⟩
    exact ⟨_, rfl, _, rfl, name, _, rfl, ends, rfl⟩

namespace Schema

variable {s : Schema} {suffix : String}

/-- An ending begins with an underscore and a letter. -/
theorem exists_letter_of_mem_migrationSuffixes (mem : suffix ∈ s.migrationSuffixes) :
    ∃ c rest, suffix.toList = '_' :: c :: rest ∧ c.isDigit = false ∧ c ≠ '_' := by
  have creation (table : String) : ∃ c rest, (Artifact.creationSuffix table).toList =
    '_' :: c :: rest ∧ c.isDigit = false ∧ c ≠ '_' :=
    ⟨'c', "reate_".toList ++ (table.toList ++ "_table.php".toList),
      by simp [Artifact.creationSuffix], by decide, by decide⟩
  rcases migrationSuffix_cases mem with rfl | ⟨e, -, rfl⟩ | ⟨name, -, rfl⟩
  · exact ⟨'m', "odify_users_table.php".toList, by decide, by decide, by decide⟩
  · exact creation e.table
  · exact creation name

/-- When the name of a migration ends with an ending, its own ending does. -/
theorem endsWith_of_endsWith_underscored {other : String} (mem : suffix ∈ s.migrationSuffixes)
    (isOther : other ∈ s.migrationSuffixes) {moment : Moment}
    (h : EndsWith suffix (moment.underscored ++ other)) : EndsWith suffix other := by
  obtain ⟨front, same⟩ := h
  rw [String.toList_append] at same
  rcases List.append_eq_append_iff.1 same with ⟨between, stamp, ending⟩ | ⟨between, -, ending⟩
  · -- what is left of the moment is digits and underscores, which no ending begins with
    have inStamp : ∀ c ∈ between, c.isDigit = true ∨ c = '_' := fun c isIn =>
      Moment.isDigit_of_mem_underscored (stamp ▸ List.mem_append_right _ isIn)
    obtain ⟨c, rest, spelled, noDigit, noUnderscore⟩ := exists_letter_of_mem_migrationSuffixes mem
    obtain ⟨d, more, otherSpelled, -, -⟩ := exists_letter_of_mem_migrationSuffixes isOther
    rw [spelled] at ending
    rcases between with _ | ⟨x, _ | ⟨y, between⟩⟩
    · rw [EndsWith, spelled, ending]
      exact List.suffix_rfl
    · rw [otherSpelled] at ending
      exact absurd (List.cons.inj (List.cons.inj ending).2).1 noUnderscore
    · have second : c = y := (List.cons.inj (List.cons.inj ending).2).1
      rcases inStamp y (by simp) with digit | underscore
      · rw [← second, noDigit] at digit
        cases digit
      · exact absurd (second.trans underscore) noUnderscore
  · exact ⟨between, ending.symm⟩

/-- An ending of the schema is required. -/
theorem required_of_mem_migrationSuffixes (mem : suffix ∈ s.migrationSuffixes) :
    Artifact.migrationPattern suffix ∈ s.requiredArtifacts := by
  rw [mem_requiredArtifacts]
  rcases List.mem_append.1 mem with own | ofPivot
  · obtain ⟨e, isEntity, is⟩ := List.mem_filterMap.1 own
    refine .inr (.inl ⟨e, isEntity, ?_⟩)
    simp [Artifact.ofEntity, Artifact.migrationPattern?, is]
  · obtain ⟨name, isPivot, rfl⟩ := List.mem_map.1 ofPivot
    exact .inr (.inr (.inl ⟨name, isPivot, rfl⟩))

/-- With plain names the required patterns of migrations are those of the endings of the schema. -/
theorem HasPlainNames.required_migrationPattern_iff (plain : s.HasPlainNames) :
    Artifact.migrationPattern suffix ∈ s.requiredArtifacts ↔ suffix ∈ s.migrationSuffixes := by
  constructor
  · intro required
    rcases required_cases required with ⟨other, isSuffix, same⟩ | page
    · obtain rfl : suffix = other := by simpa [Artifact.migrationPattern] using same
      exact isSuffix
    · exact absurd (plain.isPattern_page page) (by simp [Artifact.isPattern_migrationPattern])
  · exact required_of_mem_migrationSuffixes

end Schema

namespace Product

/-- The ending of a migration. -/
def suffix? (product : Product) : Option String :=
  match product.emission with
  | .migration suffix _ _ => some suffix
  | .whole _ _ _ _ | .merged _ _ _ _ _ _ _ => none

theorem exists_of_suffix? {product : Product} {suffix : String}
    (is : product.suffix? = some suffix) :
    ∃ text metadata, product.emission = .migration suffix text metadata := by
  unfold suffix? at is
  split at is
  · rename_i text metadata emission
    obtain rfl := Option.some.inj is
    exact ⟨text, metadata, emission⟩
  · cases is
  · cases is

end Product

namespace Schema.HasPlainNames

variable {s : Schema} {now : Moment} {options : Options} {product later : Product}
  {suffix name : String}

/-- A product with plain names is a migration directly among the migrations, or it stands elsewhere
and replaces no file but its own. -/
theorem migration_or_page (plain : s.HasPlainNames) (mem : product ∈ s.products now options) :
    (∃ suffix ∈ s.migrationSuffixes, product.suffix? = some suffix ∧ (∃ moment : Moment,
      product.path = Artifact.migrationPath moment suffix ∧
      product.names = migrationNames ++ [moment.underscored ++ suffix]) ∧
        ∀ name, product.emission.Drops (migrationNames ++ [name]) ↔ EndsWith suffix name) ∨
      product.suffix? = none ∧ ¬ migrationNames <+: product.names ∧
      ∀ names, ¬ product.emission.Drops names := by
  obtain ⟨isIn, named, path⟩ := Emission.emission_mem_of_placed mem
  have isMade := Emission.isMade_of_mem isIn
  obtain ⟨emission, path'⟩ := product
  obtain rfl : path' = emission.pathAt now named := path
  cases isMade with
  | migration suffix text metadata isSuffix =>
    have bare := plain.isBare_suffix isSuffix
    refine .inl ⟨suffix, isSuffix, rfl, ⟨_, rfl, Artifact.namesOf_migrationPath bare _⟩,
      fun name => ?_⟩
    rw [Emission.drops_migration_iff bare]
    simp
  | whole kind path text metadata page => exact .inr ⟨rfl, plain.not_prefix_page page, fun _ => id⟩
  | merged kind path markers body fresh anchor indent isPath =>
    exact .inr ⟨rfl, plain.not_prefix_page (Emission.isPage_of_merged isPath), fun _ => id⟩

/-- A run of all components makes a migration of every ending. -/
theorem exists_product (plain : s.HasPlainNames) (now : Moment) (all : options.only = [])
    (mem : suffix ∈ s.migrationSuffixes) :
    ∃ product ∈ s.products now options, product.suffix? = some suffix := by
  obtain ⟨emission, isIn, same⟩ :=
    Emission.exists_of_required all (required_of_mem_migrationSuffixes mem)
  obtain ⟨product, isProduct, rfl⟩ :
    ∃ product ∈ s.products now options, product.emission = emission :=
    Emission.exists_mem_placed isIn
  refine ⟨product, isProduct, ?_⟩
  have isPattern := Artifact.isPattern_migrationPattern suffix
  have isMade := Emission.isMade_of_mem isIn
  obtain ⟨emission, path⟩ := product
  cases isMade with
  | migration other text metadata isSuffix =>
    obtain rfl : other = suffix := by
      simpa [Emission.artifact, Artifact.migrationPattern] using same
    rfl
  | whole kind path text metadata page =>
    rw [← same, Emission.artifact, plain.isPattern_page page] at isPattern
    cases isPattern
  | merged kind path markers body fresh anchor indent isPath =>
    rw [← same, Emission.artifact, plain.isPattern_page (Emission.isPage_of_merged isPath)]
      at isPattern
    cases isPattern

/-- What replaces a file directly among the migrations is a migration with whose ending its name
ends. -/
theorem endsWith_of_replaces (plain : s.HasPlainNames) (mem : later ∈ s.products now options)
    (names : product.names = migrationNames ++ [name]) (replaces : later.Replaces product) :
    ∃ suffix ∈ s.migrationSuffixes, later.suffix? = some suffix ∧ EndsWith suffix name := by
  rcases plain.migration_or_page mem with ⟨suffix, isSuffix, is, ⟨moment, -, own⟩, drops⟩ | ⟨-,
    outside, absent⟩
  · refine ⟨suffix, isSuffix, is, ?_⟩
    rcases replaces with same | drops'
    · rw [names, own, List.append_cancel_left_eq, List.cons.injEq] at same
      exact endsWith_iff.2 ⟨_, same.1.symm⟩
    · exact (drops name).1 (names ▸ drops')
  · rcases replaces with same | drops'
    · exact absurd (same ▸ names ▸ List.prefix_append ..) outside
    · exact absurd drops' (absent _)

/-- When no other ending is the end of one, the last migration of that ending is replaced by no
later file. -/
theorem exists_last_migration (plain : s.HasPlainNames) (now : Moment) (all : options.only = [])
    (mem : suffix ∈ s.migrationSuffixes)
    (lone : ∀ other ∈ s.migrationSuffixes, EndsWith other suffix → other = suffix) :
    ∃ front product back, s.products now options = front ++ product :: back ∧
    product.suffix? = some suffix ∧
      (∃ moment : Moment, product.path = Artifact.migrationPath moment suffix ∧
        product.names = migrationNames ++ [moment.underscored ++ suffix]) ∧
      (∀ later ∈ back, later.suffix? ≠ some suffix) ∧ ∀ later ∈ back, ¬ later.Replaces product := by
  obtain ⟨front, product, back, split, is, last⟩ := exists_last (plain.exists_product now all mem)
  have isIn : product ∈ s.products now options :=
    split ▸ List.mem_append_right _ (List.mem_cons_self ..)
  rcases plain.migration_or_page isIn with ⟨own, -, is', ⟨moment, path, names⟩, -⟩ | ⟨absent, -, -⟩
  · obtain rfl := Option.some.inj (is.symm.trans is')
    refine ⟨front, product, back, split, is, ⟨moment, path, names⟩, last,
      fun later isLater replaces => ?_⟩
    have among : later ∈ s.products now options :=
      split ▸ List.mem_append_right _ (List.mem_cons_of_mem _ isLater)
    obtain ⟨other, isOther, is'', ends⟩ := plain.endsWith_of_replaces among names replaces
    obtain rfl := lone other isOther (endsWith_of_endsWith_underscored isOther mem ends)
    exact last later isLater is''
  · cases absent.symm.trans is

end Schema.HasPlainNames

namespace Project

/-- A file directly among the migrations is covered by the pattern of an ending. -/
def HasMigration (p : Project) (suffix name : String) : Prop :=
  Pattern.covers (Artifact.migrationPattern suffix)
    (Artifact.migrationsDirectory ++ "/" ++ name) = true ∧
    (p.contentAt (migrationNames ++ [name])).isSome = true

theorem hasMigration_iff {p : Project} {suffix name : String} (bare : IsBare suffix) :
    p.HasMigration suffix name ↔ EndsWith suffix name ∧
    (p.contentAt (migrationNames ++ [name])).isSome = true := by
  rw [HasMigration, Artifact.covers_migrationPattern_iff bare]

end Project

namespace Generation

variable {now : Moment} {options : Options} {s : Schema} {p after : Project} {report : Report}
  {suffix : String}

/-- The run has written a migration of an ending under a name, as it was rendered of the schema. -/
structure WritesMigration (s : Schema) (options : Options) (report : Report) (after : Project)
    (suffix name : String) : Prop where
  reported : ∃ action : FileAction, action.writes = true ∧
    ⟨"migrations", Artifact.migrationsDirectory ++ "/" ++ name, action, none⟩ ∈ report.files
  stands : ∃ text metadata,
    .migration suffix (.ok text) metadata ∈ Emission.ofSchema s options s.dependencyOrder ∧
    after.Stands (Artifact.migrationsDirectory ++ "/" ++ name) text.toUTF8

/-- Of the files directly among the migrations the pattern of an ending covers exactly one, and the
run has written it. -/
def HasOneMigration (s : Schema) (options : Options) (report : Report) (after : Project)
    (suffix : String) : Prop :=
  ∃ name, (∀ other, after.HasMigration suffix other ↔ other = name) ∧
    WritesMigration s options report after suffix name

/-- The last migration of an ending is left, when no other ending is the end of it. -/
theorem writesMigration_of_lone (plain : s.HasPlainNames) (all : options.only = [])
    (mem : suffix ∈ s.migrationSuffixes)
    (lone : ∀ other ∈ s.migrationSuffixes, EndsWith other suffix → other = suffix)
    {ready made : Run}
    (makesAll : Run.MakesAll (s.products now options) ready made) :
    ∃ front product back name, s.products now options = front ++ product :: back ∧
    product.suffix? = some suffix ∧
      product.names = migrationNames ++ [name] ∧ (∀ later ∈ back, later.suffix? ≠ some suffix) ∧
      (∃ moment : Moment, name = moment.underscored ++ suffix) ∧
      (made.project.contentAt (migrationNames ++ [name])).isSome = true ∧
      WritesMigration s options made.report made.project suffix name := by
  obtain ⟨front, product, back, split, is, ⟨moment, path, names⟩, last, spared⟩ :=
    plain.exists_last_migration now all mem lone
  have isIn : product ∈ s.products now options :=
    split ▸ List.mem_append_right _ (List.mem_cons_self ..)
  have makesAll : Run.MakesAll (front ++ product :: back) ready made := split ▸ makesAll
  obtain ⟨⟨action, writes, reported⟩, held, given, gives, stands, -⟩ := makesAll.delivered spared
  obtain ⟨text, metadata, emission⟩ := product.exists_of_suffix? is
  have path :
      product.path = Artifact.migrationsDirectory ++ "/" ++ (moment.underscored ++ suffix) := by
    rw [path, Artifact.migrationPath, String.append_assoc]
  have left : (made.project.contentAt product.names).isSome = true := by
    rw [Product.names, stands.contentAt]
    rfl
  rw [path] at reported stands
  rw [emission] at reported gives
  obtain rfl : text = .ok given := gives
  refine ⟨front, product, back, _, split, is, names, last, ⟨moment, rfl⟩, names ▸ left,
    ⟨action, writes, reported⟩, given, metadata, ?_, stands⟩
  rw [← emission]
  exact (Emission.emission_mem_of_placed isIn).1

/-- When no ending is the end of another one, exactly one migration of each is left. -/
theorem hasOneMigration_of_makesAll (plain : s.HasPlainNames) (all : options.only = [])
    (apart : ∀ a ∈ s.migrationSuffixes, ∀ b ∈ s.migrationSuffixes, EndsWith a b → a = b)
    {ready made : Run} (makesAll : Run.MakesAll (s.products now options) ready made)
    (mem : suffix ∈ s.migrationSuffixes) :
    HasOneMigration s options made.report made.project suffix := by
  obtain ⟨front, product, back, name, split, is, names, last, ⟨moment, stamped⟩, left, written⟩ :=
    writesMigration_of_lone plain all mem (fun other isOther ends =>
      apart other isOther suffix mem ends) makesAll
  have bare := plain.isBare_suffix mem
  have isIn : product ∈ s.products now options :=
    split ▸ List.mem_append_right _ (List.mem_cons_self ..)
  have drops (other : String) (ends : EndsWith suffix other) :
      product.emission.Drops (migrationNames ++ [other]) := by
    obtain ⟨text, metadata, emission⟩ := product.exists_of_suffix? is
    rw [emission, Emission.drops_migration_iff bare]
    exact ⟨other, rfl, ends⟩
  refine ⟨name, fun other => ?_, written⟩
  rw [Project.hasMigration_iff bare]
  constructor
  · rintro ⟨ends, held⟩
    rcases makesAll.isSome_contentAt_iff.1 held with ⟨front', writer, back', split', own,
      spared⟩ | ⟨-, spared⟩
    · -- the file was written for the same ending, and it can only have been the last time
      have among : writer ∈ s.products now options :=
        split' ▸ List.mem_append_right _ (List.mem_cons_self ..)
      have isWriter : writer.suffix? = some suffix := by
        rcases plain.migration_or_page among with ⟨ending, isEnding, is', ⟨moment', -, names'⟩,
          -⟩ | ⟨-, outside, -⟩
        · have same : moment'.underscored ++ ending = other := by simpa [names'] using own
          rw [is', apart suffix mem ending isEnding
            (Schema.endsWith_of_endsWith_underscored mem isEnding (same ▸ ends))]
        · exact absurd (own ▸ List.prefix_append ..) outside
      have same : product = writer := by
        rcases List.append_eq_append_iff.1 (split.symm.trans split') with ⟨between, -,
          rest⟩ | ⟨between, -, rest⟩
        · cases between with
          | nil => exact (List.cons.inj rest).1
          | cons first between =>
            refine absurd isWriter (last writer ?_)
            rw [(List.cons.inj rest).2]
            exact List.mem_append_right _ (List.mem_cons_self ..)
        · cases between with
          | nil => exact (List.cons.inj rest).1.symm
          | cons first between =>
            refine absurd (drops other ends) (spared product ?_)
            rw [(List.cons.inj rest).2]
            exact List.mem_append_right _ (List.mem_cons_self ..)
      rw [same, own, List.append_cancel_left_eq, List.cons.injEq] at names
      exact names.1
    · exact absurd (drops other ends) (spared product isIn)
  · rintro rfl
    exact ⟨endsWith_iff.2 ⟨_, stamped⟩, left⟩

/-- When exactly one migration of each ending is left, no ending is the end of another one: the
shortest that were would have its own migration left and the other one. -/
theorem apart_of_makesAll (plain : s.HasPlainNames) (all : options.only = []) {ready made : Run}
    (makesAll : Run.MakesAll (s.products now options) ready made)
    (one : ∀ suffix ∈ s.migrationSuffixes, ∃ name, ∀ other, made.project.HasMigration suffix other ↔
      other = name) :
    ∀ a ∈ s.migrationSuffixes, ∀ b ∈ s.migrationSuffixes, EndsWith a b → a = b := by
  have upTo (length : Nat) : ∀ a ∈ s.migrationSuffixes, a.toList.length = length →
      ∀ b ∈ s.migrationSuffixes, EndsWith a b → a = b := by
    induction length using Nat.strong_induction_on with
    | _ length ih =>
      rintro a mem rfl b isOther ends
      have lone : ∀ other ∈ s.migrationSuffixes, EndsWith other a → other = a := by
        intro other isShorter shorter
        by_cases less : other.toList.length < a.toList.length
        · exact ih _ less other isShorter rfl a mem shorter
        · exact shorter.eq_of_length (Nat.not_lt.1 less)
      obtain ⟨-, -, -, own, -, -, -, -, ⟨moment, rfl⟩, left, -⟩ :=
        writesMigration_of_lone plain all mem lone makesAll
      obtain ⟨name, isOne⟩ := one a mem
      obtain ⟨name', isOne'⟩ := one b isOther
      simp only [Project.hasMigration_iff (plain.isBare_suffix mem)] at isOne
      simp only [Project.hasMigration_iff (plain.isBare_suffix isOther)] at isOne'
      obtain ⟨ends', held⟩ := (isOne' name').2 rfl
      -- both files end with the shorter ending, so that they are one
      have same : moment.underscored ++ a = name' :=
        ((isOne _).1 ⟨endsWith_iff.2 ⟨_, rfl⟩, left⟩).trans
          ((isOne _).1 ⟨ends.trans ends', held⟩).symm
      have back : EndsWith b a := Schema.endsWith_of_endsWith_underscored isOther mem (same ▸ ends')
      exact ends.eq_of_length (List.IsSuffix.length_le back)
  exact fun a mem => upTo _ a mem rfl

/-- What comes after the files are made leaves the migrations alone. -/
theorem names_migration_isBelowRoots (rest : List String) :
    Schema.IsBelowRoots (migrationNames ++ rest) :=
  ⟨"database", by decide, "migrations" :: rest, rfl⟩

theorem hasMigration_of_touches {made : Project}
    (touched : Project.Touches (fun names => ¬ Schema.IsBelowRoots names) made after)
    (suffix name : String) : after.HasMigration suffix name ↔ made.HasMigration suffix name := by
  rw [Project.HasMigration, Project.HasMigration,
    touched.contents _ (not_not_intro (names_migration_isBelowRoots _))]

/-- A clean run of all components that gets past its plan and reports success leaves one migration
of each ending only when no ending is the end of another one. -/
theorem apart_of_success (plain : s.HasPlainNames) (clean : options.mode = .clean)
    (all : options.only = []) (ran : Runs now options s p report after)
    (success : report.isSuccess = true) (past : report.unchanged = false)
    (one : ∀ suffix ∈ s.migrationSuffixes, HasOneMigration s options report after suffix) :
    ∀ a ∈ s.migrationSuffixes, ∀ b ∈ s.migrationSuffixes, EndsWith a b → a = b := by
  obtain ⟨ready, made, makesAll, -, -, touched⟩ := makesAll_of_success clean all ran success past
  refine apart_of_makesAll plain all makesAll fun suffix mem => ?_
  obtain ⟨name, isOne, -⟩ := one suffix mem
  exact ⟨name, fun other => (hasMigration_of_touches touched suffix other).symm.trans (isOne other)⟩

/-- A clean run of all components that gets past its plan and reports success leaves exactly one
migration of each required ending, one that it has written, exactly when no ending of its migrations
is the end of another one. -/
theorem hasOneMigration_iff_of_success (plain : s.HasPlainNames) (clean : options.mode = .clean)
    (all : options.only = []) (ran : Runs now options s p report after)
    (success : report.isSuccess = true) (past : report.unchanged = false) :
    (∀ suffix, Artifact.migrationPattern suffix ∈ s.requiredArtifacts →
      HasOneMigration s options report after suffix) ↔
      ∀ a ∈ s.migrationSuffixes, ∀ b ∈ s.migrationSuffixes, EndsWith a b → a = b := by
  simp only [plain.required_migrationPattern_iff]
  constructor
  · exact apart_of_success plain clean all ran success past
  · intro apart suffix mem
    obtain ⟨ready, made, makesAll, files, -, touched⟩ :=
      makesAll_of_success clean all ran success past
    obtain ⟨name, isOne, ⟨action, writes, reported⟩, text, metadata, isMade, stands⟩ :=
      hasOneMigration_of_makesAll plain all apart makesAll mem
    refine ⟨name, fun other => (hasMigration_of_touches touched suffix other).trans (isOne other),
      ⟨action, writes, files.subset reported⟩, text, metadata, isMade,
      stands.of_touches touched (not_not_intro ?_)⟩
    have front : namesOf Artifact.migrationsDirectory = migrationNames := by decide
    rw [namesOf_append, front]
    exact names_migration_isBelowRoots _

/-- The run that deletes a model which is not required any more leaves one migration of its table. -/
theorem hasOneMigration_iff_of_success_staleProject : tagSchema.HasPlainNames ∧ ∃ report after,
    Runs noon {} tagSchema staleProject report after ∧ report.isSuccess = true ∧
    report.unchanged = false ∧
      ∀ suffix, Artifact.migrationPattern suffix ∈ tagSchema.requiredArtifacts →
      HasOneMigration tagSchema {} report after suffix := by
  obtain ⟨report, after, ran, -, past, success, -⟩ := success_staleProject
  have plain : tagSchema.HasPlainNames := by decide +kernel
  have apart : ∀ a ∈ tagSchema.migrationSuffixes, ∀ b ∈ tagSchema.migrationSuffixes,
      EndsWith a b → a = b := by
    have one : tagSchema.migrationSuffixes = ["_create_tags_table.php"] := by decide +kernel
    simp [one]
  exact ⟨plain, report, after, .ofSchema false ran, success, past,
    (hasOneMigration_iff_of_success plain rfl rfl (.ofSchema false ran) success past).2 apart⟩

/-- A schema of two models, where the name of the migration of the first one ends as that of the
second one. -/
def nestedTableSchema : Schema :=
  let part (table : List (String × Json)) : Json :=
    .object (table ++ [("fields", .object [("label", .string "string")])])
  match Schema.build [("meta", .object []),
    ("models", .object [("Old", part [("table", .string "old_create_tags")]),
      ("Tag", part [])])] with
  | .ok s => s
  | .error _ => Manifest.noSchema

/-- The migration that is made of the first model at noon. -/
def nestedMigration : FileResult :=
  ⟨"migrations", "database/migrations/2024_01_01_120000_create_old_create_tags_table.php",
    .created, none⟩

/-- A run of the schema goes well and tells of this migration as written, and then it is not
there. -/
theorem checked_nestedTableSchema : succeeds (({} : Store).load newProject) (fun m =>
    goesWell noon {} nestedTableSchema newProject m (fun made =>
      made.report.files.contains nestedMigration &&
          (made.project.contentAt (namesOf nestedMigration.path)).isNone)) = true := by
  decide +kernel

/-- A required migration need not be there after a clean run: the migration of another table may
take its place. -/
theorem nested_table_loses_migration : ¬ ∀ (now : Moment) (options : Options) (s : Schema)
    (p after : Project) (report : Report), s.HasPlainNames → options.mode = .clean →
    options.only = [] → Runs now options s p report after → report.isSuccess = true →
      report.unchanged = false → ∀ suffix, Artifact.migrationPattern suffix ∈ s.requiredArtifacts →
        HasOneMigration s options report after suffix := by
  intro claimed
  obtain ⟨m, loads, well⟩ := succeeds_eq_true.1 checked_nestedTableSchema
  obtain ⟨-, report, after, -, ran, -, past, success, -, -⟩ :=
    @success_of_goesWell _ _ _ _ false _ _ (by decide) loads well
  have plain : nestedTableSchema.HasPlainNames := by decide +kernel
  have ran := Runs.ofSchema false ran
  have suffixes : nestedTableSchema.migrationSuffixes = ["_create_old_create_tags_table.php",
      "_create_tags_table.php"] := by
    decide +kernel
  have apart := apart_of_success plain rfl rfl ran success past fun suffix mem =>
    claimed noon {} _ _ _ _ plain rfl rfl ran success past suffix
      (Schema.required_of_mem_migrationSuffixes mem)
  rw [suffixes] at apart
  have same :=
    apart "_create_tags_table.php" (by simp) "_create_old_create_tags_table.php" (by simp)
    (endsWith_iff.2 ⟨"_create_old", rfl⟩)
  exact absurd same (by decide)

/-- A file that is reported as written need not be there in the end: a later migration of the run
takes it away. -/
theorem written_migration_is_deleted : ¬ ∀ (now : Moment) (options : Options) (s : Schema)
    (p after : Project) (report : Report), options.mode = .clean → options.only = [] →
    Runs now options s p report after → report.isSuccess = true →
      ∀ file ∈ report.files, file.isSuccess = true → file.action.writes = true →
        (after.contentAt (namesOf file.path)).isSome = true := by
  intro claimed
  obtain ⟨m, loads, well⟩ := succeeds_eq_true.1 checked_nestedTableSchema
  obtain ⟨made, report, after, holds, ran, -, -, success, files, touched⟩ :=
    @success_of_goesWell _ _ _ _ false _ _ (by decide) loads well
  obtain ⟨written, gone⟩ := Bool.and_eq_true_iff.1 holds
  have held :=
    claimed noon {} nestedTableSchema newProject after report rfl rfl (.ofSchema false ran) success
    nestedMigration (files ▸ List.contains_iff_mem.1 written) rfl rfl
  have below : Schema.IsBelowRoots (namesOf nestedMigration.path) := by
    have names : namesOf nestedMigration.path = migrationNames ++
      ["2024_01_01_120000_create_old_create_tags_table.php"] := by decide
    exact names ▸ names_migration_isBelowRoots _
  rw [touched.contents _ fun same => same.elim below.apart.1 below.apart.2,
    Option.isNone_iff_eq_none.1 gone] at held
  cases held

end Generation
end Scaffold
