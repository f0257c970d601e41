import Scaffold.Proofs.Generation.Stamping
import Scaffold.Proofs.Generation.Tracked

/-!
# What a clean run leaves

A schema and the generator decide apart from each other which files an entity needs. After a clean
run of all components that reports success they agree in the saved manifest: nothing is tracked that
is not required, and every page that is required stands and is recorded as it stands. The main
statement is `Generation.isExact_of_success`.
-/

namespace Scaffold
set_option autoImplicit false

namespace Schema

/-- The required patterns of migrations. -/
def migrationPatterns (s : Schema) : List String :=
  s.migrationSuffixes.map Artifact.migrationPattern

variable {s : Schema} {entry : String}

/-- What is required is the pattern of a migration or a page. -/
theorem isPage_of_required (required : entry ∈ s.requiredArtifacts)
    (apart : entry ∉ s.migrationPatterns) : s.IsPage entry := by
  refine (required_cases required).resolve_left ?_
  rintro ⟨suffix, isSuffix, rfl⟩
  exact apart (List.mem_map_of_mem isSuffix)

/-- Where generated files stand: below three directories at the root of a project. -/
def IsBelowRoots (names : List String) : Prop :=
  ∃ root ∈ ["routes", "database", "app"], ∃ rest, names = root :: rest

/-- Generated files are apart from the manifest and its history. -/
theorem IsBelowRoots.apart {names : List String} (below : IsBelowRoots names) :
    names ≠ Store.manifestNames ∧ ¬ Store.HistoryTouched names := by
  obtain ⟨root, isRoot, rest, rfl⟩ := below
  refine ⟨fun same => ?_, ?_⟩
  · rw [(List.cons.inj same).1] at isRoot
    exact absurd isRoot (by decide)
  · rintro (absent | front)
    · exact absurd absent (List.cons_ne_nil _ _)
    · rw [← (List.cons_prefix_cons.1 front).1] at isRoot
      exact absurd isRoot (by decide)

end Schema

/-- A manifest is exact for a schema when it carries the digest of the schema, tracks nothing that
is not required, and records every required file that is no migration as it stands. -/
structure Manifest.IsExact (m : Manifest) (s : Schema) (p : Project) : Prop where
  stamped : m.schemaHash = some s.hash
  required : m.obsolete s = []
  pages : ∀ entry ∈ s.requiredArtifacts, entry ∉ s.migrationPatterns → ∃ content,
    m.Faithful p entry content

namespace Run

variable {now : Moment} {options : Options} {s : Schema} {p : Project} {m : Manifest}
  {report : Report} {after : Run}

/-- What is obsolete when the files are made was obsolete before, and in a merge run all of that
is. -/
theorem obsolete_of_makeFiles (plain : s.HasPlainNames)
    (h : makeFiles now options s (planned options s p m report) = (.ok (), after)) :
    ∃ tracked, after.reconciliation.manifest? = some tracked ∧
      (∀ path, (path ∈ tracked.obsolete s → path ∈ m.obsolete s) ∧
        (options.mode = .merge → path ∈ m.obsolete s → path ∈ tracked.obsolete s)) ∧
      (options.mode = .clean → isClean after.report = true → tracked.obsolete s = []) := by
  obtain ⟨cleaned, left, ready, made, -, known, -, records, kept, absent, moved, same, -, making, -,
    reconciliation, further⟩ :=
    makeFiles_eq_ok h
  have emitted : KeepsObsolete s ready made := by
    have all := @keepsObsolete_emitAll now options.mode options s s.dependencyOrder ready plain
    rwa [making] at all
  have changes : Changes now (fun _ => True) (fun _ => True) ready made := by
    have all := @changes_emitAll now options.mode (fun _ => True) (fun _ => True) ready
      (Emission.ofSchema s options s.dependencyOrder) (fun _ _ _ _ => trivial)
        fun _ _ _ _ => trivial
    rwa [making] at all
  obtain ⟨tracked, isTracked, iff⟩ := emitted left (same ▸ known)
  refine ⟨tracked, reconciliation ▸ isTracked, fun path => ⟨fun mem => ?_, fun merges mem => ?_⟩,
    fun clean success => ?_⟩
  · obtain ⟨isLeft, apart⟩ := Manifest.mem_obsolete.1 ((iff path).1 mem)
    obtain ⟨r, isRecord, rfl⟩ := Manifest.mem_trackedPaths.1 isLeft
    exact Manifest.mem_obsolete.2 ⟨Manifest.mem_trackedPaths.2 ⟨r, records r isRecord, rfl⟩, apart⟩
  · exact (iff path).2 (kept merges ▸ mem)
  · have absent :=
      absent clean (moved.report.clean (changes.moved.report.clean (further.clean success)))
    exact List.eq_nil_iff_forall_not_mem.2 fun path mem => by
      have isLeft := (iff path).1 mem
      rw [absent] at isLeft
      exact List.not_mem_nil isLeft

/-- When the files of all components are made without a failure, every required page stands and is
recorded as it stands. -/
theorem hasMade_of_makeFiles (plain : s.HasPlainNames) (all : options.only = [])
    (h : makeFiles now options s (planned options s p m report) = (.ok (), after))
    (clean : isClean after.report = true) {path : String} (page : s.IsPage path)
    (required : path ∈ s.requiredArtifacts) : after.HasMade path := by
  obtain ⟨-, -, ready, made, -, -, -, -, -, -, -, -, -, making, project, reconciliation, further⟩ :=
    makeFiles_eq_ok h
  obtain ⟨m, content, known, faithful⟩ : made.HasMade path :=
    hasMade_emitAll plain page (fun _ => id) making (further.clean clean)
      (.inr (Emission.exists_of_required all required))
  exact ⟨m, content, reconciliation ▸ known, project ▸ faithful⟩

/-- A run without a failure up to its last step ends with success, if its manifest can be saved, and
if that can enter the history after a run of all components. -/
theorem exists_apply {made : Run} {tracked : Manifest} {saved : Project}
    (begins : Generation.IsPlain report)
    (making : makeFiles now options s (planned options s p m report) = (.ok (), made))
    (clean : isClean made.report = true)
    (known : made.reconciliation.manifest? = some tracked)
    (done : ({} : Store).save (toSave now s options.only.isEmpty tracked) made.project =
      (.ok (), saved))
    (enters : options.only = [] → CanRecord now saved) :
    ∃ run, apply now options s (planned options s p m report) = (.ok (), run) ∧
    run.report.isSuccess = true ∧
      run.report.unchanged = false ∧ run.report.plan = report.plan ∧
      run.report.files = made.report.files ∧ Project.Touches (fun names =>
        names = Store.manifestNames ∨ Store.HistoryTouched names) made.project run.project := by
  obtain ⟨-, extends_, schema, store, -, -, -⟩ := spares_of_makeFiles making
  have touched := Store.touches_save {} (toSave now s options.only.isEmpty tracked) made.project
  rw [done, Store.namesOf_manifestPath] at touched
  have stamp : (isClean made.report && options.only.isEmpty) = options.only.isEmpty := by
    rw [clean, Bool.true_and]
  rw [← stamp] at done
  obtain ⟨entry, detail, run, saves, noted, entered⟩ :=
    exists_saveManifest (state_of_makeFiles making) store known schema done enters
  have applied : apply now options s (planned options s p m report) = (.ok (), run) := by
    simp only [apply, making, saves]
  have noInput := extends_.inputErrors.trans begins.noInput
  have noErrors := extends_.validationErrors.trans begins.noErrors
  refine ⟨run, applied, ?_, ?_, ?_, ?_,
    (touched.mono fun _ => .inl).trans (entered.mono fun _ => .inr)⟩
  · simp only [isClean, Bool.and_eq_true] at clean
    rw [noted]
    simpa [Report.isSuccess, Report.addStep, Report.failed, noInput, noErrors,
      and_assoc] using clean
  · rw [noted]
    exact extends_.unchanged.trans begins.acts
  · rw [noted]
    exact extends_.plan
  · rw [noted]
    rfl

end Run

namespace Generation

variable {now : Moment} {options : Options} {s : Schema} {p after : Project} {report : Report}

/-- A page is not touched when the manifest is saved or enters the history. -/
theorem spares_page_of_save {path : String} (page : s.IsPage path) :
    namesOf path ≠ Store.manifestNames ∧ ¬ Store.HistoryTouched (namesOf path) := by
  obtain ⟨directory, isDirectory, stem, -, rfl⟩ := page
  exact Schema.IsBelowRoots.apart (Artifact.names_pagePath isDirectory stem)

/-- A run that succeeds has saved its manifest after making its files without a failure. -/
theorem saved_of_success {made run : Run} {stored : Manifest} {stamp : Bool}
    (saves : Run.Saves now stored stamp made run)
    (success : run.report.isSuccess = true) :
    Run.isClean made.report = true ∧ ∃ saved, ({} : Store).save stored made.project =
      (.ok (), saved) ∧ Project.Touches Store.HistoryTouched saved run.project := by
  cases saves with
  | unsaved f refused noted =>
    rw [noted] at success
    simp [Report.isSuccess, Report.addStep] at success
  | unrecorded saved f stamped done refused noted =>
    rw [noted] at success
    simp [Report.isSuccess, Report.addStep] at success
  | saved saved entry detail done entered noted =>
    refine ⟨?_, saved, done, entered⟩
    rw [noted] at success
    simp only [Report.isSuccess, Report.addStep, Report.failed, Bool.and_eq_true] at success
    simp only [Run.isClean, Report.failed, Bool.and_eq_true]
    exact ⟨⟨success.1.1.2, success.1.2⟩, success.2⟩

/-- A manifest that was saved is loaded with the same records and the same digest. -/
theorem load_of_save {stored : Manifest} {made saved : Project}
    (done : ({} : Store).save stored made = (.ok (), saved))
    (entered : Project.Touches Store.HistoryTouched saved after) :
    ({} : Store).load { after with denials := [] } = .ok stored.recount.stored := by
  obtain ⟨bytes, stands, parsed⟩ := Store.stands_of_save (by decide) done
  have left : after.Stands ({} : Store).manifestPath bytes :=
    stands.of_touches entered (Store.namesOf_manifestPath ▸ not_historyTouched_manifestNames)
  have permitted :
    Project.Stands { after with denials := [] } ({} : Store).manifestPath bytes := left
  rw [Store.load_of_stands permitted rfl, parsed]

/-- Every clean run of all components that gets past its plan and reports success leaves an exact
manifest. -/
theorem isExact_of_success (clean : options.mode = .clean) (all : options.only = [])
    (plain : s.HasPlainNames) (ran : Runs now options s p report after)
    (planned : report.plan ≠ none) (past : report.unchanged = false)
    (success : report.isSuccess = true) :
    ∃ saved, ({} : Store).load { after with denials := [] } = .ok saved ∧
      saved.IsExact s after := by
  have acts : options.mode ≠ .preview := by rw [clean]; decide
  obtain ⟨-, m, begun, run, -, -, -, applied, rfl, rfl⟩ := applied_of_runs acts ran planned past
  obtain ⟨made, tracked, making, known, -, -, -, saves⟩ := saves_of_apply applied
  obtain ⟨noFailure, saved, done, entered⟩ := saved_of_success saves success
  have stamp : (Run.isClean made.report && options.only.isEmpty) = true := by
    rw [noFailure, all]; rfl
  rw [stamp] at done
  refine ⟨_, load_of_save done entered, ?_, ?_, fun entry required apart => ?_⟩
  · rfl
  · obtain ⟨other, known', -, absent⟩ := Run.obsolete_of_makeFiles plain making
    obtain rfl := Option.some.inj (known.symm.trans known')
    rw [Manifest.obsolete_eq_nil]
    intro path mem
    exact Manifest.obsolete_eq_nil.1 (absent clean noFailure) path
      (Manifest.mem_trackedPaths_stored.1 mem)
  · have page := s.isPage_of_required required apart
    obtain ⟨other, content, known', faithful⟩ :=
      Run.hasMade_of_makeFiles plain all making noFailure page required
    obtain rfl := Option.some.inj (known.symm.trans known')
    obtain ⟨spared, unentered⟩ := spares_page_of_save page
    have touched := Store.touches_save {} (Run.toSave now s true tracked) made.project
    rw [done] at touched
    have stands :=
      (faithful.stands.of_touches touched (Store.namesOf_manifestPath ▸ spared)).of_touches
        entered unentered
    have stored : (Run.toSave now s true tracked).recount.Faithful run.project entry content :=
      ⟨stands, faithful.tracked, faithful.records⟩
    exact ⟨content, stored.stored⟩

/-- Whether a run makes its files without a failure and can save its manifest then, and a run of all
components finds or makes an empty directory for the history, with room for an entry. -/
def goesWell (now : Moment) (options : Options) (s : Schema) (p : Project) (m : Manifest)
    (holds : Run → Bool) : Bool :=
  s.findings.isValid && (Json.object s.document).isPrintable &&
    (options.force || m.differsFrom s) &&
    let making :=
      Run.makeFiles now options s
        (Run.planned options s p m (begun options s m (emptyReport options p)))
    succeeds making.1 fun _ => Run.isClean making.2.report && holds making.2 &&
      making.2.reconciliation.manifest?.any fun tracked =>
        let saving :=
          ({} : Store).save (Run.toSave now s options.only.isEmpty tracked) making.2.project
        succeeds saving.1 fun _ => !options.only.isEmpty ||
          (saving.2.denials.isEmpty && ({} : Store).opensEmpty saving.2 &&
            decide (Store.HasRoom {} saving.2 (Store.historyStem {} now ++ ".json")))

/-- Such a run ends with success. -/
theorem success_of_goesWell {strict : Bool} {m : Manifest} {holds : Run → Bool}
    (acts : options.mode ≠ .preview) (loads : ({} : Store).load p = .ok m)
    (well : goesWell now options s p m holds = true) : ∃ made report after, holds made = true ∧
      generate now options strict s p = (.ok report, after) ∧ report.plan ≠ none ∧
      report.unchanged = false ∧ report.isSuccess = true ∧ report.files = made.report.files ∧
      Project.Touches (fun names => names = Store.manifestNames ∨
        Store.HistoryTouched names) made.project after := by
  simp only [goesWell, Bool.and_eq_true, succeeds_eq_true, Option.any_eq_true] at well
  obtain ⟨⟨⟨valid, printable⟩, due⟩, ⟨⟩, making, ⟨clean, holds'⟩, tracked, known, ⟨⟩, done, can⟩ :=
    well
  have making := Prod.fst_eq_iff.1 making
  have done := Prod.fst_eq_iff.1 done
  have begins : IsPlain (begun options s m (emptyReport options p)) :=
    IsPlain.begun ⟨rfl, rfl, rfl⟩ valid
  obtain ⟨run, applied, success, past, plan, files, entered⟩ :=
      Run.exists_apply begins making clean known done fun all => by
    simp only [all, List.isEmpty_nil, Bool.not_true, Bool.false_or, Bool.and_eq_true,
      List.isEmpty_iff, decide_eq_true_eq] at can ⊢
    exact ⟨can.1.1, Store.isClear_of_opensEmpty can.1.2, can.2⟩
  have ran : generate now options strict s p = (.ok run.report, run.project) := by
    rw [generate, continueWith_eq_ended _ valid printable loads acts due, applied, ended]
  have planned : run.report.plan ≠ none := plan ▸ Option.some_ne_none _
  exact ⟨_, _, _, holds', ran, planned, past, success, files, entered⟩

/-- A project whose manifest tracks a model that is not required any more. -/
def staleProject : Project :=
  let p : Project := { disk := Disk.blank, root := Path.ofText "project" }
  let tracked :=
    "\x7b\"files\": \x7b\"models\": \x7b\"app/Models/Old.php\": \x7b\"generated_at\": \"\"\x7d\x7d\x7d\x7d"
  ((p.writeText "app/Models/Old.php" "old").2.writeText ".ai-native-manifest.json" tracked).2

/-- A clean run in that project reports that it deleted the model, and success. -/
theorem success_staleProject :
    ∃ report after, generate noon {} false tagSchema staleProject = (.ok report, after) ∧
    report.plan ≠ none ∧ report.unchanged = false ∧ report.isSuccess = true ∧
    ⟨"models", "app/Models/Old.php", .deleted, none⟩ ∈ report.files := by
  have checked : succeeds (({} : Store).load staleProject)
      (fun m => goesWell noon {} tagSchema staleProject m (fun made =>
        made.report.files.contains ⟨"models", "app/Models/Old.php", .deleted, none⟩)) =
        true := by decide +kernel
  obtain ⟨m, loads, well⟩ := succeeds_eq_true.1 checked
  obtain ⟨made, report, after, deleted, ran, planned, past, success, files, -⟩ :=
    success_of_goesWell (by decide) loads well
  exact ⟨report, after, ran, planned, past, success, files ▸ List.contains_iff_mem.1 deleted⟩

/-- The manifest of that project is exact after the run. -/
theorem isExact_of_success_staleProject : tagSchema.HasPlainNames ∧ ∃ report after saved,
    Runs noon {} tagSchema staleProject report after ∧ report.isSuccess = true ∧
      ({} : Store).load { after with denials := [] } = .ok saved ∧
      saved.IsExact tagSchema after := by
  obtain ⟨report, after, ran, planned, past, success, -⟩ := success_staleProject
  have plain : tagSchema.HasPlainNames := by decide +kernel
  obtain ⟨saved, loaded, exact_⟩ :=
    isExact_of_success rfl rfl plain (.ofSchema false ran) planned past success
  exact ⟨plain, report, after, saved, .ofSchema false ran, success, loaded, exact_⟩

end Generation
end Scaffold
