import Scaffold.Proofs.Generation.Written
import Scaffold.Proofs.Moment.Clocks
import Scaffold.Proofs.Render.Fresh

/-!
# The order of migrations

A run names its migrations for one second after another, whether they come to be written or not. So
the names of those that it writes stand in the order in which it makes them, that of
`Schema.sequence`. The main statement is `Generation.inSequence_of_notes`: tables are made after
those they refer to, as far as cycles allow, and pivot tables after all others, and the seeder of
the database calls the seeders of the tables in the same order.
-/

namespace Scaffold
set_option autoImplicit false

open Text (NumeralError)

namespace Emission

/-- The ending of a migration. -/
def suffix? : Emission → Option String
  | .migration suffix _ _ => some suffix
  | .whole _ _ _ _ | .merged _ _ _ _ _ _ _ => none

variable {s : Schema} {options : Options} {order : List String} {e : Emission}

/-- Only migrations are reported as such. -/
def IsToldApart (e : Emission) : Prop := e.kind = .migrations → e.suffix?.isSome = true

theorem isToldApart_of_when {included : Bool} {one : Emission} (apart : one.IsToldApart)
    (mem : e ∈ if included then [one] else []) : e.IsToldApart := by
  cases included with
  | false => exact absurd mem List.not_mem_nil
  | true =>
    obtain rfl := List.mem_singleton.1 mem
    exact apart

theorem isToldApart_of_mem (mem : e ∈ ofSchema s options order) : e.IsToldApart := by
  simp only [ofSchema, ofEntity, common, List.mem_append, List.mem_flatMap] at mem
  rcases mem with (⟨entity, -,
    (((((mem | mem) | mem) | mem) | mem) | mem) | mem⟩ | mem) | ((mem | mem) | mem) | mem
  · exact isToldApart_of_when (by rintro ⟨⟩) mem
  · split at mem
    · exact isToldApart_of_when (fun _ => rfl) mem
    · exact absurd mem List.not_mem_nil
  · exact isToldApart_of_when (by rintro ⟨⟩) mem
  · exact isToldApart_of_when (by rintro ⟨⟩) mem
  · exact isToldApart_of_when (by rintro ⟨⟩) mem
  · exact isToldApart_of_when (by rintro ⟨⟩) mem
  · exact isToldApart_of_when (by rintro ⟨⟩) mem
  · split at mem
    · obtain ⟨pivot, -, rfl⟩ := List.mem_map.1 mem
      exact fun _ => rfl
    · exact absurd mem List.not_mem_nil
  · exact isToldApart_of_when (by rintro ⟨⟩) mem
  · refine isToldApart_of_when ?_ mem
    unfold databaseSeeder
    split <;> rintro ⟨⟩
  · split at mem
    · rcases List.mem_cons.1 mem with rfl | mem
      · rintro ⟨⟩
      · obtain rfl := List.mem_singleton.1 mem
        rintro ⟨⟩
    · exact absurd mem List.not_mem_nil
  · exact isToldApart_of_when (by rintro ⟨⟩) mem

end Emission

namespace Run

variable {now : Moment} {mode : Mode} {run : Run} {named : Nat} {suffix : String}
  {suffixes front back names : List String}

/-- Migrations with some endings are made one after another, and those that are written get names.
One that is not written may have had its second too. -/
inductive Named (now : Moment) : Nat → List String → List String → Prop where
  | nil (named : Nat) : Named now named [] []
  | missing {named later : Nat} {suffix : String} {suffixes names : List String}
      (le : named ≤ later)
      (further : Named now later suffixes names) : Named now named (suffix :: suffixes) names
  | written {named second : Nat} {moment : Moment} {suffix : String} {suffixes names : List String}
      (le : named ≤ second) (next : now.plusSeconds? second = some moment)
      (further : Named now (second + 1) suffixes names) :
      Named now named (suffix :: suffixes) (Artifact.migrationName moment suffix :: names)

/-- A name that is given to a migration of an ending. -/
def IsNameOf (name suffix : String) : Prop :=
  ∃ moment : Moment, moment.IsRegular ∧ name = Artifact.migrationName moment suffix

namespace Named

theorem unwritten (now : Moment) (named : Nat) (suffixes : List String) :
    Named now named suffixes [] := by
  induction suffixes with
  | nil => exact .nil named
  | cons suffix suffixes ih => exact .missing le_rfl ih

theorem of_le {later : Nat} (h : Named now later suffixes names) (le : named ≤ later) :
    Named now named suffixes names := by
  cases h with
  | nil => exact .nil named
  | missing le' further => exact .missing (le.trans le') further
  | written le' next further => exact .written (le.trans le') next further

/-- Every name is of a later second than those named before. -/
theorem exists_of_mem (h : Named now named suffixes names) {name : String} (mem : name ∈ names) :
    ∃ suffix ∈ suffixes, ∃ second moment, named ≤ second ∧ now.plusSeconds? second = some moment ∧
      name = Artifact.migrationName moment suffix := by
  induction h with
  | nil => exact absurd mem List.not_mem_nil
  | missing le _ ih =>
    obtain ⟨suffix, isIn, second, moment, late, next, is⟩ := ih mem
    exact ⟨suffix, List.mem_cons_of_mem _ isIn, second, moment, le.trans late, next, is⟩
  | @written named second moment suffix suffixes names le next further ih =>
    rcases List.mem_cons.1 mem with rfl | mem
    · exact ⟨suffix, List.mem_cons_self .., second, moment, le, next, rfl⟩
    · obtain ⟨suffix', isIn, second', moment', late, next', is⟩ := ih mem
      exact ⟨suffix', List.mem_cons_of_mem _ isIn, second', moment',
        (le.trans (Nat.le_succ _)).trans late, next', is⟩

/-- The names stand in the order in which they were given. -/
theorem pairwise_lt (regular : now.IsRegular) (h : Named now named suffixes names) :
    names.Pairwise (· < ·) := by
  induction h with
  | nil => exact .nil
  | missing _ _ ih => exact ih
  | written _ next further ih =>
    refine List.pairwise_cons.2 ⟨fun name mem => ?_, ih⟩
    obtain ⟨suffix', -, second, moment', late, next', rfl⟩ := further.exists_of_mem mem
    exact Artifact.migrationName_lt regular next next' late _ suffix'

/-- They are names for some of the endings, in their order. -/
theorem exists_sublist (regular : now.IsRegular) (h : Named now named suffixes names) :
    ∃ written, written.Sublist suffixes ∧
    List.Forall₂ (fun suffix name => IsNameOf name suffix) written names := by
  induction h with
  | nil => exact ⟨[], .slnil, .nil⟩
  | missing _ _ ih =>
    obtain ⟨written, sub, all⟩ := ih
    exact ⟨written, sub.cons _, all⟩
  | @written named second moment suffix suffixes names le next further ih =>
    obtain ⟨written, sub, all⟩ := ih
    exact ⟨suffix :: written, sub.cons_cons suffix,
      .cons ⟨moment, (Moment.plusSeconds?_eq_some regular next).1, rfl⟩ all⟩

/-- Of endings one part after another, the names for one stand before those for the other. -/
theorem split (h : Named now named (front ++ back) names) :
    ∃ first second later, names = first ++ second ∧
    Named now named front first ∧ Named now later back second := by
  induction front generalizing named names with
  | nil => exact ⟨[], names, named, rfl, .nil named, h⟩
  | cons suffix front ih =>
    cases h with
    | missing le further =>
      obtain ⟨first, second, later, rfl, isFirst, isSecond⟩ := ih further
      exact ⟨first, second, later, rfl, .missing le isFirst, isSecond⟩
    | written le next further =>
      obtain ⟨first, second, later, rfl, isFirst, isSecond⟩ := ih further
      exact ⟨_, second, later, rfl, .written le next isFirst, isSecond⟩

end Named

/-- The names for an ending stand before those for another one that comes later, when no ending
comes twice. -/
theorem Named.lt_of_split (regular : now.IsRegular) (h : Named now named (front ++ back) names)
    (once : (front ++ back).Nodup) {earlier later suffix suffix' : String}
    (isEarlier : earlier ∈ names) (isLater : later ∈ names)
    (own : IsNameOf earlier suffix) (own' : IsNameOf later suffix') (inFront : suffix ∈ front)
    (inBack : suffix' ∈ back) : earlier < later := by
  have apart := List.disjoint_of_nodup_append once
  obtain ⟨first, second, start, rfl, isFirst, isSecond⟩ := h.split
  have only {parts found : List String} {named : Nat} {name ending : String}
      (isPart : Named now named parts found) (isName : IsNameOf name ending)
      (mem : name ∈ found) : ending ∈ parts := by
    obtain ⟨moment, isRegular, rfl⟩ := isName
    obtain ⟨suffix, isIn, second, moment', -, next, same⟩ := isPart.exists_of_mem mem
    rw [Artifact.suffix_eq_of_migrationName isRegular
      (Moment.plusSeconds?_eq_some regular next).1 same]
    exact isIn
  have placed : earlier ∈ first :=
    (List.mem_append.1 isEarlier).resolve_right fun mem => apart inFront (only isSecond own mem)
  have placed' : later ∈ second :=
    (List.mem_append.1 isLater).resolve_left fun mem => apart (only isFirst own' mem) inBack
  exact (List.pairwise_append.1 (h.pairwise_lt regular)).2.2 earlier placed later placed'

/-! ## The names that a run gives -/

variable {kind : ArtifactKind} {path : String} {action : FileAction} {metadata : Json.Members}

theorem migrations_record (now : Moment) (kind : ArtifactKind) (path : String) (action : FileAction)
    (metadata : Json.Members) (run : Run) :
    (record now kind path action metadata run).2.migrations = run.migrations := by
  unfold record
  split <;> rfl

theorem migrations_store (now : Moment) (kind : ArtifactKind) (path : String) (action : FileAction)
    (text : String) (metadata : Json.Members) (run : Run) :
    (store now kind path action text metadata run).2.migrations = run.migrations := by
  unfold store
  split
  · exact migrations_record ..
  · rfl
  · rfl

theorem migrations_storeRendered (now : Moment) (kind : ArtifactKind) (path : String)
    (action : FileAction) (text : Except NumeralError String)
    (metadata : Json.Members) (run : Run) :
    (storeRendered now kind path action text metadata run).2.migrations = run.migrations := by
  unfold storeRendered
  split
  · exact migrations_store ..
  · rfl

theorem migrations_emitWhole (now : Moment) (mode : Mode) (kind : ArtifactKind) (path : String)
    (text : Except NumeralError String) (metadata : Json.Members) (run : Run) :
    (emitWhole now mode kind path text metadata run).2.migrations = run.migrations := by
  unfold emitWhole
  split
  · rfl
  · split
    · exact migrations_record ..
    · exact migrations_storeRendered ..
  · exact migrations_storeRendered ..

theorem migrations_emitMerged (now : Moment) (kind : ArtifactKind) (path : String)
    (markers : Markers) (body : List String) (fresh : String) (anchor : Option String)
    (indent : String) (run : Run) :
    (emitMerged now kind path markers body fresh anchor indent run).2.migrations =
      run.migrations := by
  unfold emitMerged
  split
  · rfl
  · exact migrations_store ..
  · split
    · exact migrations_store ..
    · rfl
    · rfl

theorem migrations_recordAll (now : Moment) (kind : ArtifactKind) (metadata : Json.Members)
    (paths : List String) (run : Run) :
    (recordAll now kind metadata paths run).2.migrations = run.migrations := by
  induction paths generalizing run with
  | nil => rfl
  | cons path rest ih =>
    have first := migrations_record now kind path .skipped metadata run
    unfold recordAll
    cases recorded : record now kind path .skipped metadata run with
    | mk outcome between =>
      rw [recorded] at first
      cases outcome with
      | ok _ => exact (ih between).trans first
      | error cause => exact first

theorem migrations_deleteAll (kind : ArtifactKind) (paths : List String) (run : Run) :
    (deleteAll kind paths run).2.migrations = run.migrations := by
  induction paths generalizing run with
  | nil => rfl
  | cons path rest ih =>
    unfold deleteAll
    split
    · exact ih _
    · rfl
    · rfl

/-- What making a file does to the count of the migrations that were named. One that is written has
the next second in its name. -/
inductive Counts (now : Moment) (e : Emission) (before after : Run)
    (o : Option (String × String)) : Prop where
  | nothing (le : before.migrations ≤ after.migrations)
      (unwritten : e.suffix?.isSome = true → o = none)
  | one (suffix : String) (moment : Moment) (text : String) (is : e.suffix? = some suffix)
      (next : now.plusSeconds? before.migrations = some moment)
      (migrations : after.migrations = before.migrations + 1)
      (written : o = some (Artifact.migrationPath moment suffix, text))

theorem counts_writeMigration (now : Moment) (suffix : String) (action : FileAction)
    (text : Except NumeralError String) (metadata : Json.Members) (run : Run) :
    Counts now (.migration suffix text metadata) run
      (writeMigration now suffix action text metadata run).2
        (run.storedMigration? now suffix text) := by
  unfold writeMigration storedMigration?
  cases forgotten : forgetCovered (Artifact.migrationPattern suffix) run with
  | error cause => exact .nothing le_rfl fun _ => rfl
  | ok ready =>
    obtain ⟨_, _, -, same, -⟩ := forgetCovered_eq_ok forgotten
    have migrations : ready.migrations = run.migrations := by rw [same]
    dsimp only
    cases named : nextMoment now ready with
    | error cause => exact .nothing migrations.ge fun _ => rfl
    | ok moment =>
      have next := nextMoment_eq_ok named
      have count :=
        (migrations_storeRendered now .migrations (Artifact.migrationPath moment suffix)
          action text metadata
          { ready with migrations := ready.migrations + 1 }).trans (congrArg (· + 1) migrations)
      rw [migrations] at next
      dsimp only
      cases written : ready.stored? (Artifact.migrationPath moment suffix) text with
      | none => exact .nothing (by rw [count]; exact Nat.le_succ _) fun _ => rfl
      | some file =>
        obtain ⟨path, given⟩ := file
        obtain ⟨rfl, -⟩ := stored?_eq_some written
        exact .one suffix moment given rfl next count rfl

theorem counts_emit (now : Moment) (mode : Mode) (run : Run) (e : Emission) :
    Counts now e run (emit now mode run e).2 (run.writes? now mode e) := by
  cases e with
  | whole kind path text metadata =>
    exact .nothing (migrations_emitWhole ..).ge fun named => absurd named Bool.false_ne_true
  | merged kind path markers body fresh anchor indent =>
    exact .nothing (migrations_emitMerged ..).ge fun named => absurd named Bool.false_ne_true
  | migration suffix text metadata =>
    dsimp only [emit, emitMigration, writes?]
    cases run.project.glob (Artifact.migrationPattern suffix) with
    | error cause => cases cause <;> exact .nothing le_rfl fun _ => rfl
    | ok existing =>
      dsimp only
      split
      · exact .nothing (migrations_recordAll ..).ge fun _ => rfl
      · have count := migrations_deleteAll .migrations existing run
        cases deletion : deleteAll .migrations existing run with
        | mk outcome cleared =>
          rw [deletion] at count
          cases outcome with
          | error cause => exact .nothing count.ge fun _ => rfl
          | ok all =>
            cases all with
            | false => exact .nothing count.ge fun _ => rfl
            | true =>
              dsimp only at count ⊢
              cases counts_writeMigration now suffix
                  (if existing.isEmpty then .created else .overwritten) text metadata cleared with
              | nothing le unwritten => exact .nothing (count ▸ le) unwritten
              | one suffix moment text is next migrations written =>
                rw [count] at next migrations
                exact .one suffix moment text is next migrations written

/-- The migration among the files that are written when one file is made. -/
theorem migrations_own {e : Emission} (apart : e.IsToldApart) (o : Option (String × String)) :
    FileWritten.migrations (o.map fun (path, text) => (⟨e, path, text⟩ : FileWritten)).toList =
      if e.suffix?.isSome then (o.map (·.1)).toList else [] := by
  have isMigration : e.kind = .migrations ↔ e.suffix?.isSome = true :=
    ⟨apart, fun named => by cases e <;> first | rfl | exact absurd named Bool.false_ne_true⟩
  cases o with
  | none => simp [FileWritten.migrations]
  | some file =>
    by_cases named : e.suffix?.isSome = true <;>
      simp [FileWritten.migrations, FileWritten.kind, isMigration, named]

/-- Making files, a run names migrations in their order, and those that it writes have got a
name. -/
theorem named_filesWritten {emissions : List Emission}
    (apart : ∀ e ∈ emissions, e.IsToldApart) (run : Run) :
    ∃ names, Named now run.migrations (emissions.filterMap Emission.suffix?) names ∧
      FileWritten.migrations (filesWritten now mode emissions run) =
        names.map Artifact.pathOfMigration := by
  induction emissions generalizing run with
  | nil => exact ⟨[], .nil _, rfl⟩
  | cons e rest ih =>
    have first := counts_emit now mode run e
    have own := migrations_own (apart e (List.mem_cons_self ..)) (run.writes? now mode e)
    -- what is written after the first file, whether it has ended the run or not
    have further : ∃ names, Named now (emit now mode run e).2.migrations
        (rest.filterMap Emission.suffix?) names ∧
        FileWritten.migrations (filesWritten now mode (e :: rest) run) =
          (if e.suffix?.isSome then ((run.writes? now mode e).map (·.1)).toList else []) ++
            names.map Artifact.pathOfMigration := by
      unfold filesWritten
      rw [← own]
      cases made : emit now mode run e with
      | mk outcome between =>
        cases outcome with
        | error cause => exact ⟨[], .unwritten .., by simp⟩
        | ok _ =>
          obtain ⟨names, isNamed, written⟩ :=
            ih (fun e' mem => apart e' (List.mem_cons_of_mem _ mem)) between
          exact ⟨names, isNamed, by rw [← written, FileWritten.migrations_append]⟩
    obtain ⟨names, isNamed, written⟩ := further
    rw [written]
    cases first with
    | nothing le unwritten =>
      refine ⟨names, ?_, ?_⟩
      · cases is : e.suffix? with
        | none =>
          rw [List.filterMap_cons_none is]
          exact isNamed.of_le le
        | some suffix =>
          rw [List.filterMap_cons_some is]
          exact .missing le isNamed
      · split
        · rename_i named
          rw [unwritten named]
          rfl
        · rfl
    | one suffix moment text is next migrations own =>
      rw [migrations] at isNamed
      refine ⟨Artifact.migrationName moment suffix :: names, ?_, ?_⟩
      · rw [List.filterMap_cons_some is]
        exact .written le_rfl next isNamed
      · simp [is, own, Artifact.migrationPath_eq]

end Run

namespace Schema

/-- The endings of the migrations that a run makes, in that order: those of the entities, each after
those it depends on, and those of the pivot tables. -/
def sequence (s : Schema) (options : Options) : List String :=
  if options.includes .migrations then
    (s.dependencyOrder.filterMap s.entities.get?).filterMap Artifact.migrationSuffix? ++
      s.pivots.keys.map Artifact.creationSuffix
  else []

/-- No two entities or pivot tables have one table. -/
def HasOwnTables (s : Schema) : Prop := (s.entities.values.map (·.table) ++ s.pivots.keys).Nodup

instance (s : Schema) : Decidable s.HasOwnTables := inferInstanceAs (Decidable (List.Nodup _))

variable {s : Schema} {options : Options}

theorem suffixes_of_when {included : Bool} {one : Emission} (unnamed : one.suffix? = none) :
    (if included then [one] else []).filterMap Emission.suffix? = [] := by
  cases included with
  | false => rfl
  | true => simp [unnamed]

theorem suffixes_ofEntity (s : Schema) (options : Options) (e : Entity) :
    (Emission.ofEntity s options e).filterMap Emission.suffix? =
    if options.includes .migrations then (Artifact.migrationSuffix? e).toList else [] := by
  simp only [Emission.ofEntity, List.filterMap_append, Bool.and_true]
  rw [suffixes_of_when rfl, suffixes_of_when rfl, suffixes_of_when rfl, suffixes_of_when rfl,
    suffixes_of_when rfl, suffixes_of_when rfl]
  cases Artifact.migrationSuffix? e with
  | none => simp
  | some suffix =>
    simp only [List.nil_append, List.append_nil]
    split <;> rfl

theorem suffixes_common (s : Schema) (options : Options) (order : List String) :
    (Emission.common s options order).filterMap Emission.suffix? = [] := by
  have seeder : (Emission.databaseSeeder s options.mode order).suffix? = none := by
    unfold Emission.databaseSeeder
    split <;> rfl
  simp only [Emission.common, List.filterMap_append]
  rw [suffixes_of_when (by rfl), suffixes_of_when seeder, suffixes_of_when (by rfl)]
  split <;> rfl

/-- The files of a run are in this order. -/
theorem suffixes_ofSchema (s : Schema) (options : Options) :
    (Emission.ofSchema s options s.dependencyOrder).filterMap Emission.suffix? =
      s.sequence options := by
  have entities :
      ∀ es : List Entity, (es.flatMap (Emission.ofEntity s options)).filterMap Emission.suffix? =
      if options.includes .migrations then es.filterMap Artifact.migrationSuffix? else [] := by
    intro es
    induction es with
    | nil => cases options.includes .migrations <;> rfl
    | cons e es ih =>
      rw [List.flatMap_cons, List.filterMap_append, suffixes_ofEntity, ih, List.filterMap_cons]
      cases options.includes .migrations with
      | false => rfl
      | true => cases Artifact.migrationSuffix? e <;> rfl
  have pivots : (s.pivots.values.map Emission.ofPivot).filterMap Emission.suffix? =
      s.pivots.keys.map Artifact.creationSuffix := by
    simp only [OrderedMap.values, OrderedMap.keys, List.filterMap_map, List.map_map]
    rw [← List.filterMap_eq_map]
    refine List.filterMap_congr fun entry mem => ?_
    simp only [Function.comp_apply, Emission.ofPivot, Emission.suffix?, s.pivots_named entry mem]
  rw [Emission.ofSchema, List.filterMap_append, List.filterMap_append, entities, suffixes_common,
    List.append_nil, sequence]
  split
  · rw [pivots]
  · rfl

/-- It has the endings of the schema, each once. -/
theorem sequence_perm (all : options.includes .migrations = true) :
    (s.sequence options).Perm s.migrationSuffixes := by
  have entities : (s.dependencyOrder.filterMap s.entities.get?).Perm s.entities.values := by
    have perm := s.dependencyOrder_perm.filterMap s.entities.get?
    rwa [OrderedMap.filterMap_get?_keys] at perm
  rw [sequence, if_pos all, migrationSuffixes]
  exact (entities.filterMap Artifact.migrationSuffix?).append_right _

end Schema

namespace Artifact

variable {suffix table table' : String} {e other : Entity}

theorem creationSuffix_injective (same : creationSuffix table = creationSuffix table') :
    table = table' := by
  simpa [creationSuffix, String.append_assoc] using same

theorem creationSuffix_ne_usersSuffix (table : String) : creationSuffix table ≠ usersSuffix := by
  intro same
  have second := congrArg (fun text : String => text.toList[1]?) same
  simp [creationSuffix, usersSuffix] at second

theorem table_eq_of_migrationSuffix? (is : migrationSuffix? e = some suffix)
    (is' : migrationSuffix? other = some suffix) :
    e.table = other.table := by
  rcases table_of_migrationSuffix? is with ⟨users, same⟩ | ⟨-, same⟩ <;>
    rcases table_of_migrationSuffix? is' with ⟨users', same'⟩ | ⟨-, same'⟩
  · exact users.trans users'.symm
  · exact absurd (same'.symm.trans same) (creationSuffix_ne_usersSuffix _)
  · exact absurd (same.symm.trans same') (creationSuffix_ne_usersSuffix _)
  · exact creationSuffix_injective (same.symm.trans same')

end Artifact

namespace Schema

variable {s : Schema} {options : Options}

/-- Where every table is one's own, so is every ending. -/
theorem HasOwnTables.nodup_migrationSuffixes (own : s.HasOwnTables) :
    s.migrationSuffixes.Nodup := by
  obtain ⟨entities, pivots, apart⟩ := List.nodup_append.1 own
  refine List.nodup_append.2 ⟨?_, ?_, ?_⟩
  · refine List.Pairwise.filterMap _ (fun e other differ suffix is suffix' is' same => ?_)
      (List.pairwise_map.1 entities)
    subst same
    exact differ (Artifact.table_eq_of_migrationSuffix? is is')
  · exact List.Pairwise.map _ (fun _ _ differ same =>
      differ (Artifact.creationSuffix_injective same)) pivots
  · intro suffix mem suffix' mem' same
    obtain ⟨e, isEntity, is⟩ := List.mem_filterMap.1 mem
    obtain ⟨name, isPivot, rfl⟩ := List.mem_map.1 mem'
    rcases Artifact.table_of_migrationSuffix? is with ⟨-, users⟩ | ⟨-, creation⟩
    · exact Artifact.creationSuffix_ne_usersSuffix name (same.symm.trans users)
    · exact apart _ (List.mem_map_of_mem isEntity) _ isPivot
        (Artifact.creationSuffix_injective (creation.symm.trans same))

/-- One entity belongs to another one, and no walk along such relations leads back. -/
structure BelongsFreely (s : Schema) (e other : Entity) : Prop where
  entity : s.entities.get? e.name = some e
  owner : s.entities.get? other.name = some other
  relation : other.name ∈ e.belongsToTargets
  free : ¬ s.belongsToGraph.Reaches other.name e.name

theorem BelongsFreely.before {e other : Entity} (h : s.BelongsFreely e other) :
    Before s.dependencyOrder other.name e.name := by
  have apart : other.name ≠ e.name := fun same => h.free (same ▸ .refl)
  have known : s.entities.has other.name = true := by simp [OrderedMap.has, h.owner]
  have edge : s.belongsToGraph.Edge e.name other.name :=
    edge_belongsToGraph.2 ⟨e, h.entity, h.relation, known, apart⟩
  exact (before_or_reaches edge).resolve_right h.free

end Schema

namespace Emission

variable {s : Schema} {options : Options} {e : Emission} {order : List String}

/-- A whole file of an entity notes whose it is. -/
theorem metadata_of_mem_ofEntity {entity : Entity} {kind : ArtifactKind} {path : String}
    {text : Except NumeralError String} {metadata : Json.Members}
    (mem : .whole kind path text metadata ∈ ofEntity s options entity) :
    metadata = entityMetadata entity := by
  have noted {included : Bool} {kind' : ArtifactKind} {path' : String}
      {text' : Except NumeralError String}
      (mem : .whole kind path text metadata ∈ if included then
        [whole kind' path' text' (entityMetadata entity)] else []) :
      metadata = entityMetadata entity := by
    cases included with
    | false => exact absurd mem List.not_mem_nil
    | true => exact (whole.inj (List.mem_singleton.1 mem)).2.2.2
  simp only [ofEntity, List.mem_append] at mem
  rcases mem with (((((mem | mem) | mem) | mem) | mem) | mem) | mem
  · exact noted mem
  · split at mem
    · split at mem
      · cases List.mem_singleton.1 mem
      · exact absurd mem List.not_mem_nil
    · exact absurd mem List.not_mem_nil
  all_goals exact noted mem

/-- In a clean run the seeder of the whole database comes after the files of the entities, and what
comes after it is made elsewhere. -/
theorem exists_split_ofSchema (now : Moment) (clean : options.mode = .clean) :
    ∃ head tail, ofSchema s options order = head ++
      ((if options.includes .seeders then [databaseSeeder s options.mode order] else []) ++ tail) ∧
      databaseSeeder s options.mode order ∉ head ∧
      ∀ e ∈ tail, ¬ e.Alters now (namesOf Artifact.databaseSeederPath) := by
  refine ⟨_, _, by
    simp only [ofSchema, common, List.append_assoc]
    rw [← List.append_assoc, ← List.append_assoc], ?_, ?_⟩
  · rw [clean]
    intro mem
    simp only [databaseSeeder, List.mem_append, List.mem_flatMap] at mem
    rcases mem with (⟨entity, -, mem⟩ | mem) | mem
    · exact absurd (metadata_of_mem_ofEntity mem) (List.cons_ne_nil _ _).symm
    · split at mem
      · obtain ⟨pivot, -, isPivot⟩ := List.mem_map.1 mem
        cases isPivot
      · exact absurd mem List.not_mem_nil
    · split at mem
      · cases List.mem_singleton.1 mem
      · exact absurd mem List.not_mem_nil
  · intro e mem
    rcases List.mem_append.1 mem with mem | mem
    · split at mem
      · rcases List.mem_cons.1 mem with rfl | mem
        · exact (by decide :
            namesOf Artifact.databaseSeederPath ≠ namesOf Artifact.authProviderPath)
        · obtain rfl := List.mem_singleton.1 mem
          exact (by decide :
            namesOf Artifact.databaseSeederPath ≠ namesOf Artifact.observerProviderPath)
      · exact absurd mem List.not_mem_nil
    · split at mem
      · obtain rfl := List.mem_singleton.1 mem
        exact (by decide :
          namesOf Artifact.databaseSeederPath ≠ namesOf Artifact.authControllerPath)
      · exact absurd mem List.not_mem_nil

/-- So it is made once, and nothing later in its place. -/
theorem later_of_databaseSeeder {now : Moment} {front later : List Emission}
    (clean : options.mode = .clean)
    (made : ofSchema s options order = front ++ databaseSeeder s options.mode order :: later) :
    ∀ e ∈ later, ¬ e.Alters now (namesOf Artifact.databaseSeederPath) := by
  obtain ⟨head, tail, eq, first, apart⟩ := @exists_split_ofSchema s options order now clean
  have own :
      (databaseSeeder s options.mode order).Alters now (namesOf Artifact.databaseSeederPath) := by
    rw [clean]
    rfl
  have last : databaseSeeder s options.mode order ∉ tail := fun mem => apart _ mem own
  rw [eq] at made
  by_cases included : options.includes .seeders = true
  · rw [if_pos included, List.singleton_append] at made
    obtain ⟨-, -, rfl⟩ := (List.append_cons_inj_of_notMem first last).1 made
    exact apart
  · rw [if_neg included, List.nil_append] at made
    have mem : databaseSeeder s options.mode order ∈ head ++ tail := by simp [made]
    exact absurd mem (List.mem_append.not.2 (not_or.2 ⟨first, last⟩))

end Emission

namespace Generation

variable {now : Moment} {options : Options} {s : Schema} {p after : Project} {report : Report}
  {written : List FileWritten}

/-- The name of a migration that an entity gets. -/
def IsMigrationOf (e : Entity) (name : String) : Prop :=
  ∃ suffix, Artifact.migrationSuffix? e = some suffix ∧ Run.IsNameOf name suffix

/-- In the list of a seeder the seeder of one entity is called before that of another one. -/
def SeedsBefore (s : Schema) (first second : Entity) (seeder : String) : Prop :=
  ∃ front middle back, s.dependencyOrder = front ++ first.name :: (middle ++ second.name :: back) ∧
    Render.seedersCalled seeder = Render.seederClasses s front ++ (first.className ++ "Seeder") ::
      (Render.seederClasses s middle ++ (second.className ++ "Seeder") ::
        Render.seederClasses s back)

/-- Migrations stand by their names as they are made, and tables are made and filled after those
they refer to. -/
structure InSequence (s : Schema) (options : Options) (written : List FileWritten) (after : Project)
    (names : List String) : Prop where
  /-- Some of the endings get a name, in their order. -/
  generated : ∃ written, written.Sublist (s.sequence options) ∧
    List.Forall₂ (fun suffix name => Run.IsNameOf name suffix) written names
  sorted : names.Pairwise (· < ·)
  owners : ∀ e other : Entity, s.BelongsFreely e other → ∀ own ∈ names, IsMigrationOf e own →
    ∀ owner ∈ names, IsMigrationOf other owner → owner < own
  pivots : ∀ e ∈ s.entities.values, ∀ pivot ∈ s.pivots.values, ∀ own ∈ names, IsMigrationOf e own →
    ∀ table ∈ names, Run.IsNameOf table (Artifact.creationSuffix pivot.name) → own < table
  /-- The seeder of the whole database is there with the text that was written, and the list in this
  text calls the seeder of an owner before that of what belongs to it. -/
  seeder : ∀ f ∈ written, f.emission = Emission.databaseSeeder s options.mode s.dependencyOrder →
    after.contentAt (namesOf Artifact.databaseSeederPath) = some f.text.toUTF8 ∧
      ∀ e other : Entity, s.BelongsFreely e other → e.seeder = true → other.seeder = true →
      SeedsBefore s other e f.text

/-- However a run goes, the migrations that it writes are among those that it has named. -/
theorem named_of_notes (notes : Notes now options s p report after written) :
    ∃ names, Run.Named now 0 (s.sequence options) names ∧
      FileWritten.migrations written = names.map Artifact.pathOfMigration := by
  cases notes with
  | idle files left unwritten => exact ⟨[], .unwritten .., by rw [unwritten]; rfl⟩
  | applied m start outcome run loads fresh applied noted left wrote =>
    have prepared := Run.prepared_prepare options s p m start
    unfold Run.carriedOut at wrote
    cases preparing : Run.prepare options s (Run.planned options s p m start) with
    | mk outcome ready =>
      rw [preparing] at wrote prepared
      cases outcome with
      | error cause => exact ⟨[], .unwritten .., by rw [← wrote]; rfl⟩
      | ok _ =>
        obtain ⟨names, isNamed, same⟩ := @Run.named_filesWritten now options.mode
          (Emission.ofSchema s options s.dependencyOrder)
            (fun e mem => Emission.isToldApart_of_mem mem) ready
        rw [prepared.unnamed, Schema.suffixes_ofSchema] at isNamed
        exact ⟨names, isNamed, wrote ▸ same⟩

/-- The calls of seeders follow the order of the entities. -/
theorem seedsBefore_databaseSeederPage {first second : Entity}
    (known : s.entities.get? first.name = some first)
    (known' : s.entities.get? second.name = some second) (seeds : first.seeder = true)
    (seeds' : second.seeder = true) (before : Before s.dependencyOrder first.name second.name) :
    SeedsBefore s first second (Render.databaseSeederPage s s.dependencyOrder) := by
  obtain ⟨start, back, order, mem⟩ := before
  obtain ⟨front, middle, rfl⟩ := List.append_of_mem mem
  rw [List.append_assoc, List.cons_append] at order
  refine ⟨front, middle, back, order, ?_⟩
  rw [Render.seedersCalled_databaseSeederPage, order, Render.seederClasses_append,
    Render.seederClasses_cons known seeds, Render.seederClasses_append,
    Render.seederClasses_cons known' seeds']

/-- A run that has named a migration makes migrations. -/
theorem includes_of_named {names : List String} {name : String}
    (isNamed : Run.Named now 0 (s.sequence options) names)
    (mem : name ∈ names) : options.includes .migrations = true := by
  by_contra excluded
  rw [Schema.sequence, if_neg excluded] at isNamed
  obtain ⟨_, absent, -⟩ := isNamed.exists_of_mem mem
  exact absurd absent List.not_mem_nil

theorem owner_lt_of_named {names : List String} (regular : now.IsRegular) (own : s.HasOwnTables)
    (isNamed : Run.Named now 0 (s.sequence options) names) {e other : Entity}
    (free : s.BelongsFreely e other) {name owner : String}
    (mem : name ∈ names) (isOwn : IsMigrationOf e name) (mem' : owner ∈ names)
    (isOwner : IsMigrationOf other owner) : owner < name := by
  obtain ⟨suffix, is, isName⟩ := isOwn
  obtain ⟨suffix', is', isName'⟩ := isOwner
  obtain ⟨front, back, order, inFront⟩ := free.before
  have all := includes_of_named isNamed mem
  have once : (s.sequence options).Nodup :=
    (Schema.sequence_perm all).nodup_iff.2 own.nodup_migrationSuffixes
  have parts :
      s.sequence options = (front.filterMap s.entities.get?).filterMap Artifact.migrationSuffix? ++
      (((e.name :: back).filterMap s.entities.get?).filterMap Artifact.migrationSuffix? ++
        s.pivots.keys.map Artifact.creationSuffix) := by
      rw [Schema.sequence, if_pos all, order, List.filterMap_append, List.filterMap_append,
        List.append_assoc]
  rw [parts] at isNamed once
  refine isNamed.lt_of_split regular once mem' mem isName' isName ?_ (List.mem_append_left _ ?_)
  · exact List.mem_filterMap.2 ⟨other, List.mem_filterMap.2 ⟨_, inFront, free.owner⟩, is'⟩
  · exact List.mem_filterMap.2 ⟨e, List.mem_filterMap.2 ⟨_, List.mem_cons_self .., free.entity⟩, is⟩

theorem lt_pivot_of_named {names : List String} (regular : now.IsRegular) (own : s.HasOwnTables)
    (isNamed : Run.Named now 0 (s.sequence options) names) {e : Entity} {pivot : Pivot}
    (isEntity : e ∈ s.entities.values) (isPivot : pivot ∈ s.pivots.values) {name table : String}
    (mem : name ∈ names) (isOwn : IsMigrationOf e name)
    (mem' : table ∈ names) (isTable : Run.IsNameOf table (Artifact.creationSuffix pivot.name)) :
    name < table := by
  obtain ⟨suffix, is, isName⟩ := isOwn
  have all := includes_of_named isNamed mem
  have once : (s.sequence options).Nodup :=
    (Schema.sequence_perm all).nodup_iff.2 own.nodup_migrationSuffixes
  rw [Schema.sequence, if_pos all] at isNamed once
  obtain ⟨⟨key, _⟩, isEntry, rfl⟩ := List.mem_map.1 isEntity
  obtain ⟨⟨tableKey, _⟩, isTableEntry, rfl⟩ := List.mem_map.1 isPivot
  have ordered : key ∈ s.dependencyOrder :=
    s.dependencyOrder_perm.mem_iff.2 (List.mem_map_of_mem isEntry)
  refine isNamed.lt_of_split regular once mem mem' isName isTable ?_ ?_
  · exact List.mem_filterMap.2
      ⟨_, List.mem_filterMap.2 ⟨key, ordered, OrderedMap.get?_eq_some.2 isEntry⟩, is⟩
  · rw [s.pivots_named _ isTableEntry]
    exact List.mem_map_of_mem (List.mem_map_of_mem isTableEntry)

/-- A clean run whose clock shows a year of four digits writes its migrations in sequence, whatever
else fails or stops it. -/
theorem inSequence_of_notes (regular : now.IsRegular) (clean : options.mode = .clean)
    (own : s.HasOwnTables) (notes : Notes now options s p report after written) :
    Emission.ComeTo now (Emission.ofSchema s options s.dependencyOrder) p after report.written
      written ∧
    ∃ names, FileWritten.migrations written = names.map Artifact.pathOfMigration ∧
      InSequence s options written after names := by
  have comeTo := comeTo_of_notes notes
  obtain ⟨names, isNamed, same⟩ := named_of_notes notes
  refine ⟨comeTo, names, same, isNamed.exists_sublist regular,
    isNamed.pairwise_lt regular, ?_, ?_, ?_⟩
  · exact fun e other free name mem isOwn owner mem' isOwner =>
      owner_lt_of_named regular own isNamed free mem isOwn mem' isOwner
  · exact fun e isEntity pivot isPivot name mem isOwn table mem' isTable =>
      lt_pivot_of_named regular own isNamed isEntity isPivot mem isOwn mem' isTable
  · intro f mem isSeeder
    obtain ⟨path, held, given⟩ := comeTo.given f mem
    obtain ⟨front, later, eq, stands⟩ := comeTo.lasts f mem
    rw [isSeeder] at path given eq
    have spared := @Emission.later_of_databaseSeeder s options s.dependencyOrder now _ _ clean eq
    simp only [Emission.databaseSeeder, clean] at path given
    rw [show f.path = Artifact.databaseSeederPath from path] at stands
    refine ⟨stands spared, fun e other free seeds seeds' => ?_⟩
    rw [← Except.ok.inj given]
    exact seedsBefore_databaseSeederPage free.owner free.entity seeds' seeds free.before

/-- A schema of posts, which belong to authors, with a pivot table between the two. -/
def blogSchema : Schema :=
  let fields (name definition : String) : String × Json :=
    ("fields", .object [(name, .string definition)])
  match Schema.build [("meta", .object []),
    ("models", .object [
      ("Post", .object [fields "title" "string",
        ("relations", .object [("author", .string "belongsTo:Author")]),
        ("seeder", .bool true)]),
      ("Author", .object [fields "name" "string", ("seeder", .bool true)])]),
    ("pivots", .object [("author_post", .object [fields "note" "string"])])] with
  | .ok s => s
  | .error _ => Manifest.noSchema

/-- The last second of a year. -/
def newYear : Moment := ⟨2023, 12, 31, 23, 59, 59, 0, none⟩

def tablesAndSeeders : Options := { only := [.migrations, .seeders], writeEnv := false }

/-- A run of the schema writes all its files, three of which are migrations, and the post of the
blog belongs to its author. -/
theorem checked_blogSchema : (succeeds (({} : Store).load newProject) (fun m =>
      let written := Run.carriedOut newYear tablesAndSeeders blogSchema
        (Run.planned tablesAndSeeders blogSchema newProject m
          (begun tablesAndSeeders blogSchema m (emptyReport tablesAndSeeders newProject)))
      written.length ==
          (Emission.ofSchema blogSchema tablesAndSeeders blogSchema.dependencyOrder).length &&
        (FileWritten.migrations written).length == 3) &&
    (blogSchema.entities.get? "Post").any (fun e =>
      e.name == "Post" && e.seeder && e.belongsToTargets.contains "Author") &&
    (blogSchema.entities.get? "Author").any (fun e => e.name == "Author" && e.seeder) &&
    !blogSchema.belongsToGraph.reaches "Author" "Post") = true := by
  decide +kernel

/-- At the turn of a year the migrations of a blog stand in the order of their tables, and the
authors are seeded before the posts. -/
theorem inSequence_of_notes_blogSchema : newYear.IsRegular ∧ blogSchema.HasOwnTables ∧
    ∃ report after written names,
    Notes newYear tablesAndSeeders blogSchema newProject report after written ∧
      FileWritten.migrations written = names.map Artifact.pathOfMigration ∧ names.length = 3 ∧
      InSequence blogSchema tablesAndSeeders written after names ∧
      ∃ post author, blogSchema.BelongsFreely post author ∧
        post.seeder = true ∧ author.seeder = true ∧
        ∃ f ∈ written, after.contentAt (namesOf Artifact.databaseSeederPath) = some f.text.toUTF8 ∧
          SeedsBefore blogSchema author post f.text := by
  have checked := checked_blogSchema
  simp only [Bool.and_eq_true, Option.any_eq_true, beq_iff_eq, List.contains_iff_mem,
    Bool.not_eq_true', succeeds_eq_true] at checked
  obtain ⟨⟨⟨⟨m, loads, all, three⟩, post, isPost, ⟨named, seeds⟩, relation⟩, author, isAuthor,
    named', seeds'⟩, free⟩ := checked
  have regular : newYear.IsRegular := by decide
  have own : blogSchema.HasOwnTables := by decide +kernel
  have notes : Notes newYear tablesAndSeeders blogSchema newProject _ _ _ :=
    .applied m (begun tablesAndSeeders blogSchema m (emptyReport tablesAndSeeders newProject)) _ _
      loads rfl rfl rfl rfl rfl
  obtain ⟨comeTo, names, same, inSequence⟩ := inSequence_of_notes regular rfl own notes
  have belongs : blogSchema.BelongsFreely post author := by
    refine ⟨named.symm ▸ isPost, named'.symm ▸ isAuthor, named'.symm ▸ relation, ?_⟩
    rw [← Graph.reaches_iff blogSchema.belongsToGraph_closed, named, named', free]
    exact Bool.false_ne_true
  have made : Emission.databaseSeeder blogSchema tablesAndSeeders.mode blogSchema.dependencyOrder ∈
      Emission.ofSchema blogSchema tablesAndSeeders blogSchema.dependencyOrder := by
    simp [Emission.ofSchema, Emission.common, tablesAndSeeders, Options.includes]
  rw [← comeTo.order.eq_of_length (by rw [List.length_map, all])] at made
  obtain ⟨f, mem, isSeeder⟩ := List.mem_map.1 made
  obtain ⟨stands, calls⟩ := inSequence.seeder f mem isSeeder
  refine ⟨regular, own, _, _, _, names, notes, same, ?_, inSequence, post, author, belongs, seeds,
    seeds', f, mem, stands, calls post author belongs seeds seeds'⟩
  rw [← List.length_map Artifact.pathOfMigration, ← same, three]

end Generation
end Scaffold
