import Scaffold.Proofs.Generation.Stranding
import Scaffold.Proofs.Project.Keeping

/-!
# What a merge keeps

A run that merges writes a whole file only where none is, and a migration only where a search for
its ending finds none. So, with table names in which no character means more than itself, it keeps
every file of the project but those that it is there to change: `Generation.keeps_files_of_merge`.
-/

namespace Scaffold
set_option autoImplicit false

/-- The moment in the name of a migration is of digits and underscores. -/
theorem Moment.isDigit_of_mem_underscored {m : Moment} {c : Char} (mem : c ∈ m.underscored.toList) :
    c.isDigit = true ∨ c = '_' := by
  have number {n : Nat} (mem : c ∈ (toString n).toList) : c.isDigit = true := by
    have digit : c ∈ Nat.toDigits 10 n := by simpa using mem
    exact Nat.isDigit_of_mem_toDigits (by decide) (by decide) digit
  have digits {width n : Nat} (mem : c ∈ (Text.digits width n).toList) : c.isDigit = true := by
    rw [Text.digits, Text.padLeft, Text.repeated, String.toList_append, List.mem_append,
      String.toList_ofList] at mem
    rcases mem with zero | mem
    · obtain rfl := List.eq_of_mem_replicate zero
      decide
    · exact number mem
  have gap (mem : c ∈ "_".toList) : c = '_' := List.mem_singleton.1 mem
  simp only [underscored, date, time, String.toList_append, List.mem_append] at mem
  rcases mem with (((((year | mem) | month) | mem) | day) | mem) |
    ((((hour | absent) | minute) | absent) | second)
  · exact .inl (number year)
  · exact .inr (gap mem)
  · exact .inl (digits month)
  · exact .inr (gap mem)
  · exact .inl (digits day)
  · exact .inr (gap mem)
  · exact .inl (digits hour)
  · exact absurd absent List.not_mem_nil
  · exact .inl (digits minute)
  · exact absurd absent List.not_mem_nil
  · exact .inl (digits second)

theorem Moment.slash_not_mem_underscored (m : Moment) : '/' ∉ m.underscored.toList := by
  intro mem
  rcases isDigit_of_mem_underscored mem with digit | same
  · exact absurd digit (by decide)
  · exact absurd same (by decide)

namespace Schema

/-- The names of its tables hold no character that means more than itself in a pattern. -/
structure HasLiteralTables (s : Schema) : Prop where
  entities : ∀ e ∈ s.entities.values, Pattern.isPattern e.table = false
  pivots : ∀ name ∈ s.pivots.keys, Pattern.isPattern name = false

instance (s : Schema) : Decidable s.HasLiteralTables :=
  decidable_of_iff ((∀ e ∈ s.entities.values, Pattern.isPattern e.table = false) ∧
    ∀ name ∈ s.pivots.keys, Pattern.isPattern name = false) ⟨fun h => ⟨h.1, h.2⟩,
      fun h => ⟨h.entities, h.pivots⟩⟩

end Schema

namespace Artifact

/-- An ending of migrations in which no character means more than itself, for files only. -/
def IsLiteralSuffix (suffix : String) : Prop :=
  Pattern.isPattern suffix = false ∧ ∃ stem, suffix = stem ++ ".php"

theorem isLiteralSuffix_creationSuffix {table : String} (h : Pattern.isPattern table = false) :
    IsLiteralSuffix (creationSuffix table) := by
  refine ⟨?_, "_create_" ++ table ++ "_table", by simp [creationSuffix, String.append_assoc]⟩
  have front : Pattern.IsLiteral "_create_".toList := Pattern.isPattern_eq_false.1 (by decide)
  have back : Pattern.IsLiteral "_table.php".toList := Pattern.isPattern_eq_false.1 (by decide)
  rw [Pattern.isPattern_eq_false, creationSuffix, String.toList_append, String.toList_append]
  exact (front.append (Pattern.isPattern_eq_false.1 h)).append back

theorem isLiteralSuffix_usersSuffix :
    IsLiteralSuffix usersSuffix := ⟨by decide, "_modify_users_table", by decide⟩

/-- A pattern of migrations is one for files. -/
theorem endsWith_migrationPattern {suffix : String} (h : ∃ stem, suffix = stem ++ ".php") :
    Text.endsWith "/" (migrationPattern suffix) = false := by
  obtain ⟨stem, rfl⟩ := h
  have chars : (migrationPattern (stem ++ ".php")).toList.reverse = 'p' :: 'h' :: 'p' :: '.' ::
      (migrationPattern stem).toList.reverse := by
    simp [migrationPattern]
  rw [Text.endsWith, Chars.endsWith, chars]
  simp [Chars.dropHead?]

/-- Where a search for migrations of an ending finds none, none is there, whatever its moment. -/
theorem contentAt_migrationPath {p : Project} {suffix : String} (literal : IsLiteralSuffix suffix)
    (opened : p.IsOpen) (absent : p.glob (migrationPattern suffix) = .ok []) (moment : Moment) :
    p.contentAt (namesOf (migrationPath moment suffix)) = Option.none := by
  have files := endsWith_migrationPattern literal.2
  rw [Run.migrationPattern_eq] at absent files
  have visible : ∃ c ∈ moment.underscored.toList, c ≠ '.' :=
    ⟨'_', by simp [Moment.underscored], by decide⟩
  have free :=
    Project.contentAt_of_glob (by decide) (by decide) (by decide) literal.1 files opened absent
    moment.slash_not_mem_underscored visible
  rw [Run.migrationPath_eq]
  exact free

end Artifact

namespace Schema

/-- With literal tables the endings of migrations are literal. -/
theorem HasLiteralTables.isLiteralSuffix {s : Schema} (h : s.HasLiteralTables) {suffix : String}
    (mem : suffix ∈ s.migrationSuffixes) : Artifact.IsLiteralSuffix suffix := by
  rcases migrationSuffix_cases mem with rfl | ⟨e, isEntity, rfl⟩ | ⟨name, isPivot, rfl⟩
  · exact Artifact.isLiteralSuffix_usersSuffix
  · exact Artifact.isLiteralSuffix_creationSuffix (h.entities e isEntity)
  · exact Artifact.isLiteralSuffix_creationSuffix (h.pivots name isPivot)

end Schema

namespace Run

variable {now : Moment} {s : Schema} {run : Run} {allowed : List String → Prop}

/-- A merge makes a file whole only where none is. -/
theorem keepsFiles_emitWhole (opened : run.project.IsOpen) (kind : ArtifactKind) (path : String)
    (text : Except Text.NumeralError String) (metadata : Json.Members) :
    Project.KeepsFiles allowed run.project
      (emitWhole now .merge kind path text metadata run).2.project := by
  unfold emitWhole
  split
  · exact .refl _ _
  · rw [if_pos rfl]
    have noted : Changes now (fun _ => False) (fun _ => True) run
      (record now kind path .skipped metadata run).2 :=
      changes_record kind .skipped metadata trivial
    exact noted.moved.project.keepsFiles fun _ => False.elim
  · rename_i absent
    have written : Changes now (· = namesOf path) (fun _ => True) run
      (storeRendered now kind path .created text metadata run).2 :=
      changes_storeRendered kind .created text metadata rfl trivial
    exact written.moved.project.keepsFiles fun names here _ =>
      here ▸ Project.contentAt_of_fileExists opened absent

theorem keepsFiles_emitMerged (kind : ArtifactKind) {path : String} (markers : Markers)
    (body : List String) (fresh : String) (anchor : Option String) (indent : String)
    (isAllowed : allowed (namesOf path)) :
    Project.KeepsFiles allowed run.project
      (emitMerged now kind path markers body fresh anchor indent run).2.project := by
  have merged : Changes now (· = namesOf path) (fun _ => True) run
      (emitMerged now kind path markers body fresh anchor indent run).2 :=
    changes_emitMerged kind markers body fresh anchor indent rfl trivial
  exact merged.moved.project.keepsFiles fun names here apart => absurd (here ▸ isAllowed) apart

/-- A merge writes a migration only where there is none of its ending. -/
theorem keepsFiles_emitMigration {suffix : String} (literal : Artifact.IsLiteralSuffix suffix)
    (opened : run.project.IsOpen) (text : Except Text.NumeralError String)
    (metadata : Json.Members) :
    Project.KeepsFiles allowed run.project
      (emitMigration now .merge suffix text metadata run).2.project := by
  unfold emitMigration
  dsimp only
  split
  · exact .refl _ _
  · exact .refl _ _
  · rename_i existing found
    cases existing with
    | nil =>
      have written := (changes_writeMigration .created text metadata : Changes now _ _ run
        (writeMigration now suffix .created text metadata run).2).moved.project
      refine written.keepsFiles ?_
      rintro names ⟨_, moment, -, eq⟩ -
      rw [eq]
      exact Artifact.contentAt_migrationPath literal opened found moment
    | cons first rest =>
      have noted : Changes now (fun _ => False) (fun _ => True) run
          (recordAll now .migrations metadata (first :: rest) run).2 :=
            changes_recordAll .migrations metadata fun _ _ => trivial
      exact noted.moved.project.keepsFiles fun _ => False.elim

theorem keepsFiles_emit (literal : s.HasLiteralTables) (opened : run.project.IsOpen)
    {emission : Emission} (isMade : emission.IsMade s)
    (isAllowed : ∀ path ∈ [Artifact.routesPath, Artifact.databaseSeederPath],
      allowed (namesOf path)) :
    Project.KeepsFiles allowed run.project (emit now .merge run emission).2.project := by
  cases isMade with
  | whole kind path text metadata page => exact keepsFiles_emitWhole opened kind path text metadata
  | merged kind path markers body fresh anchor indent isPath =>
    exact keepsFiles_emitMerged kind markers body fresh anchor indent (isAllowed path isPath)
  | migration suffix text metadata isSuffix =>
    exact keepsFiles_emitMigration (literal.isLiteralSuffix isSuffix) opened text metadata

/-- Making files in a merge keeps those that are there. -/
theorem keepsFiles_emitAll (literal : s.HasLiteralTables) {emissions : List Emission}
    (among : ∀ e ∈ emissions, e.IsMade s) (opened : run.project.IsOpen)
    (isAllowed : ∀ path ∈ [Artifact.routesPath, Artifact.databaseSeederPath],
      allowed (namesOf path)) :
    Project.KeepsFiles allowed run.project (emitAll now .merge emissions run).2.project := by
  induction emissions generalizing run with
  | nil => exact .refl _ _
  | cons emission rest ih =>
    have first :=
      @keepsFiles_emit now s run allowed literal opened _
        (among emission (List.mem_cons_self ..)) isAllowed
    unfold emitAll
    cases made : emit now .merge run emission with
    | mk outcome after =>
      rw [made] at first
      cases outcome with
      | ok _ =>
        exact first.trans (ih (fun e mem => among e (List.mem_cons_of_mem _ mem))
          (opened.of_keeps first.same first.keeps))
      | error e => exact first

end Run

namespace Generation

/-- The files that a merge is there to change, other than the history: the environment, the two
files with sections and the manifest. -/
def mergedPaths : List String :=
  [Run.envPath, Artifact.routesPath, Artifact.databaseSeederPath, ({} : Store).manifestPath]

/-- The names of these files, and those that saving to the history touches. -/
def MergeTouched (names : List String) : Prop :=
  names ∈ mergedPaths.map namesOf ∨ Store.HistoryTouched names

/-- A file that a merge is there to change. -/
def MayChange (path : String) : Prop := path ∈ mergedPaths ∨ Store.historyNames <+: namesOf path

theorem mayChange_of_mergeTouched {path : String} (normal : Path.IsNormal path)
    (h : MergeTouched (namesOf path)) : MayChange path := by
  rcases h with mem | absent | front
  · obtain ⟨other, isOther, same⟩ := List.mem_map.1 mem
    have all : ∀ path ∈ mergedPaths, Path.IsNormal path := by decide
    rw [namesOf_of_normal normal, namesOf_of_normal (all other isOther)] at same
    rw [← Text.join_split other, same, Text.join_split] at isOther
    exact .inl isOther
  · rw [namesOf_of_normal normal, Text.split, List.map_eq_nil_iff] at absent
    exact absurd absent (Chars.split_ne_nil '/' path.toList)
  · exact .inr front

end Generation

namespace Run

open Generation (MergeTouched mergedPaths)

variable {now : Moment} {options : Options} {s : Schema} {p : Project}

/-- The steps of a merge up to the last keep the files that are there. -/
theorem keepsFiles_makeFiles (literal : s.HasLiteralTables) (merges : options.mode = .merge)
    (opened : p.IsOpen) (m : Manifest) (begun : Report) :
    Project.KeepsFiles MergeTouched p
      (makeFiles now options s (planned options s p m begun)).2.project := by
  obtain ⟨cleaned, ready, -, kept, setting, made⟩ := project_makeFiles now options s p m begun
  obtain rfl := kept merges
  have isEnv : MergeTouched (namesOf envPath) := .inl (by decide)
  have soFar : Project.KeepsFiles MergeTouched cleaned ready :=
    setting.keepsFiles fun names here apart => absurd (here ▸ isEnv) apart
  rcases made with same | ⟨run, rfl, same⟩
  · rwa [same]
  · rw [same, merges]
    have isAllowed : ∀ path ∈
        [Artifact.routesPath, Artifact.databaseSeederPath], MergeTouched (namesOf path) := by
      have among : ∀ path ∈
        [Artifact.routesPath, Artifact.databaseSeederPath], path ∈ mergedPaths := by decide
      exact fun path mem => .inl (List.mem_map_of_mem (among path mem))
    exact soFar.trans (keepsFiles_emitAll literal (fun _ mem => Emission.isMade_of_mem mem)
      (opened.of_keeps soFar.same soFar.keeps) isAllowed)

/-- So do all its steps, whatever comes of them. -/
theorem keepsFiles_apply (literal : s.HasLiteralTables) (merges : options.mode = .merge)
    (opened : p.IsOpen) (m : Manifest) (begun : Report) :
    Project.KeepsFiles MergeTouched p
      (apply now options s (planned options s p m begun)).2.project := by
  have kept := @keepsFiles_makeFiles now options s p literal merges opened m begun
  unfold apply
  cases making : makeFiles now options s (planned options s p m begun) with
  | mk outcome made =>
    rw [making] at kept
    cases outcome with
    | error e => exact kept
    | ok _ =>
      obtain ⟨-, -, schema, store, tracked, known, -⟩ := spares_of_makeFiles making
      refine kept.trans ?_
      dsimp only
      rcases @saved_of_saveManifest now options made tracked s known schema
        store with absent | ⟨saved, done, entered⟩
      · exact absent.keepsFiles fun _ => False.elim
      · have written :=
          Store.touches_save ({} : Store)
            (toSave now s (isClean made.report && options.only.isEmpty) tracked) made.project
        rw [done] at written
        have isManifest : MergeTouched (namesOf ({} : Store).manifestPath) := .inl (by decide)
        exact (written.keepsFiles fun names here apart => absurd (here ▸ isManifest) apart).trans
          (entered.keepsFiles fun names here apart => absurd (.inr here) apart)

end Run

namespace Generation

variable {now : Moment} {options : Options} {s : Schema} {p after : Project}
  {outcome : Except Stop Report}

/-- A merge changes and deletes no file of the project but those that it is there to change,
whatever comes of the run, whatever components it makes and whatever is refused meanwhile. -/
theorem keeps_files_of_merge (literal : s.HasLiteralTables) (merges : options.mode = .merge)
    (h : Leads now options s p outcome after) {path : String} {content : ByteArray}
    (held : p.HasFile path content) (apart : ¬ MayChange path) : after.HasFile path content := by
  rcases proceeds_of_leads h with rfl | ⟨m, -, begun, result, run, applied, rfl, -⟩
  · exact held
  · have kept := @Run.keepsFiles_apply now options s p literal merges held.2.1 m begun
    rw [applied] at kept
    exact held.of_keepsFiles kept fun touched => apart (mayChange_of_mergeTouched held.1 touched)

/-- A project with a model that somebody has written. -/
def ownProject : Project := (newProject.writeText "app/Models/Tag.php" "<?php // mine").2

/-- A merge keeps it. -/
theorem keeps_files_of_merge_ownProject :
    ∃ outcome after, Leads noon { mode := .merge } tagSchema ownProject outcome after ∧
    after.HasFile "app/Models/Tag.php" "<?php // mine".toUTF8 := by
  have opened : ownProject.IsOpen := ⟨["project"], by decide +kernel⟩
  have held : ownProject.HasFile "app/Models/Tag.php"
    "<?php // mine".toUTF8 := ⟨by decide, opened, by decide +kernel⟩
  have literal : tagSchema.HasLiteralTables := by decide +kernel
  have apart : ¬ MayChange "app/Models/Tag.php" := by
    rintro (mem | front)
    · exact absurd mem (by decide)
    · exact absurd front (by decide)
  obtain ⟨outcome, after, leads⟩ := exists_leads noon { mode := .merge } tagSchema ownProject
  exact ⟨outcome, after, leads, keeps_files_of_merge literal rfl leads held apart⟩

end Generation
end Scaffold
