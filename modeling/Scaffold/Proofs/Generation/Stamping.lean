import Scaffold.Proofs.Generation.Emissions
import Scaffold.Proofs.Generation.Running
import Scaffold.Schema.Build

/-!
# The stamp after a failure

A project is up to date with a schema when its manifest carries the digest of the schema: the next
run then stops before it changes anything. A run that fails is to leave a project that is not up to
date. `Generation.isUpToDate_of_failure` says when it does not: the digest of an earlier run of the
same schema is kept, or the manifest is stamped before the history turns out to be closed.
-/

namespace Scaffold
set_option autoImplicit false

namespace Store

/-- The names of the manifest's file. -/
def manifestNames : List String := [".ai-native-manifest.json"]

theorem namesOf_manifestPath : namesOf ({} : Store).manifestPath = manifestNames := by decide

end Store

theorem Manifest.differsFrom_eq_false {m : Manifest} {s : Schema} :
    m.differsFrom s = false ↔ m.schemaHash = some s.hash := by
  simp [differsFrom]

namespace Project

/-- The manifest of a project carries the digest of a schema. -/
def IsUpToDate (p : Project) (s : Schema) : Prop :=
  ∃ stored, ({} : Store).load { p with denials := [] } = .ok stored ∧ stored.differsFrom s = false

variable {p : Project} {s : Schema}

theorem isUpToDate_iff : p.IsUpToDate s ↔ ∃ bytes stored, p.Stands ({} : Store).manifestPath bytes ∧
    ({} : Store).parsed bytes = .ok stored ∧ stored.differsFrom s = false := by
  constructor
  · rintro ⟨stored, loaded, stamped⟩
    rcases Store.load_eq_ok loaded with ⟨-, rfl⟩ | ⟨bytes, stands, parsed⟩
    · cases (Manifest.differsFrom_eq_false.1 stamped)
    · exact ⟨bytes, stored, stands, parsed, stamped⟩
  · rintro ⟨bytes, stored, stands, parsed, stamped⟩
    have stands' : Project.Stands { p with denials := [] } ({} : Store).manifestPath bytes := stands
    refine ⟨stored, ?_, stamped⟩
    rw [Store.load_of_stands stands' rfl, parsed]

/-- Directories are kept, and the file to which names lead is the same or gone. -/
structure Spares (names : List String) (before after : Project) : Prop where
  same : after = { before with disk := after.disk }
  keeps : Disk.KeepsDirectories before.disk after.disk
  content : after.contentAt names = before.contentAt names ∨ after.contentAt names = none

variable {names : List String} {touched : List String → Prop} {before after : Project}

theorem Spares.trans {a b c : Project} (first : Spares names a b) (second : Spares names b c) :
    Spares names a c where
  same := by rw [second.same, first.same]
  keeps := first.keeps.trans second.keeps
  content := by
    rcases second.content with kept | gone
    · rw [kept]
      exact first.content
    · exact .inr gone

theorem Shrinks.spares (h : Shrinks before after) (names : List String) :
    Spares names before after :=
  ⟨h.same, h.keeps, h.contents names⟩

theorem Touches.spares (h : Touches touched before after) (spared : ¬ touched names) :
    Spares names before after :=
  ⟨h.same, h.keeps, .inl (h.contents names spared)⟩

end Project

namespace Run

variable {now : Moment} {options : Options} {s : Schema} {p : Project} {m : Manifest}
  {report : Report} {after : Run}

/-- The steps before the last spare the manifest's file, whether or not they come to their end. -/
theorem spares_makeFiles (now : Moment) (options : Options) (s : Schema) (p : Project)
    (m : Manifest) (report : Report) :
    Project.Spares Store.manifestNames p
      (makeFiles now options s (planned options s p m report)).2.project := by
  obtain ⟨cleaned, ready, shrinks, -, setting, made⟩ := project_makeFiles now options s p m report
  have envSpared : ¬ Store.manifestNames = namesOf envPath := by decide
  have soFar : Project.Spares Store.manifestNames p ready :=
    (shrinks.spares _).trans (setting.spares envSpared)
  rcases made with same | ⟨run, rfl, same⟩
  · rwa [same]
  · have emitted : Moved (fun names => ∃ root ∈ ["routes", "database", "app"], ∃ rest,
        names = root :: rest) run
        (emitAll now options.mode (Emission.ofSchema s options s.dependencyOrder) run).2 :=
      (changes_emitAll (fun e mem names touched => Emission.root_of_touched mem touched)
        fun _ _ _ _ => trivial : Changes now _ (fun _ => True) _ _).moved
    have filesSpared :
        ¬ ∃ root ∈ ["routes", "database", "app"], ∃ rest, Store.manifestNames = root :: rest := by
      rintro ⟨root, isRoot, rest, names⟩
      obtain ⟨rfl, -⟩ := List.cons.inj names
      exact absurd isRoot (by decide)
    rw [same]
    exact soFar.trans (emitted.project.spares filesSpared)

/-- The steps before the last keep the digest of the manifest, and a report that they end with goes
on from the first. -/
theorem spares_of_makeFiles
    (h : makeFiles now options s (planned options s p m report) = (.ok (), after)) :
    Project.Spares Store.manifestNames p after.project ∧ report.Extends after.report ∧
      after.reconciliation.schema? = some s ∧ after.reconciliation.store = {} ∧
      ∃ tracked, after.reconciliation.manifest? = some tracked ∧
      tracked.schemaHash = m.schemaHash := by
  have spared := spares_makeFiles now options s p m report
  rw [h] at spared
  obtain ⟨cleaned, left, ready, made, cleanedUp, known, hash, -, -, -, moved, same, -, making,
    project, reconciliation, report'⟩ :=
    makeFiles_eq_ok h
  have emitted : Moved (fun _ => True) ready made := by
    have all : Moved _ ready
      (emitAll now options.mode (Emission.ofSchema s options s.dependencyOrder) ready).2 :=
      (changes_emitAll (fun _ _ _ _ => trivial) fun _ _ _ _ => trivial : Changes now (fun _ => True)
        (fun _ => True) _ _).moved
    rwa [making] at all
  refine ⟨spared, ?_, ?_, ?_, ?_⟩
  · exact cleanedUp.report.trans (moved.report.trans (emitted.report.trans report'))
  · rw [reconciliation, emitted.reconciliation, same, cleanedUp.reconciliation]
    rfl
  · rw [reconciliation, emitted.reconciliation, same, cleanedUp.reconciliation]
    rfl
  · have hashes := emitted.hash
    rw [same, known, Option.map_some, Option.map_eq_some_iff] at hashes
    obtain ⟨tracked, isTracked, eq⟩ := hashes
    exact ⟨tracked, reconciliation ▸ isTracked, eq.trans hash⟩

/-- The steps before the last leave the manifest to be saved. -/
theorem state_of_makeFiles
    (h : makeFiles now options s (planned options s p m report) = (.ok (), after)) :
    after.reconciliation.state = .reconciled := by
  obtain ⟨cleaned, -, ready, emitted, cleanedUp, -, -, -, -, -, -, same, -, making, -,
    reconciliation, -⟩ := makeFiles_eq_ok h
  have moved : Moved _ ready
    (emitAll now options.mode (Emission.ofSchema s options s.dependencyOrder) ready).2 :=
    (changes_emitAll (fun _ _ _ _ => trivial) fun _ _ _ _ => trivial : Changes now (fun _ => True)
      (fun _ => True) _ _).moved
  rw [making] at moved
  rw [reconciliation, moved.reconciliation, same, cleanedUp.reconciliation]

theorem Saves.unchanged {stamp : Bool} {run : Run} (h : Saves now m stamp run after) :
    after.report.unchanged = run.report.unchanged := by
  cases h with
  | unsaved f refused noted => rw [noted]; rfl
  | unrecorded saved f stamped done refused noted => rw [noted]; rfl
  | saved saved entry detail done entered noted => rw [noted]; rfl

end Run

namespace Generation

/-- How a run that fails leaves a project that is up to date with its schema. -/
inductive Misstamped (now : Moment) (options : Options) (s : Schema) (p : Project)
    (before : Manifest) (report : Report) (after : Project) : Prop where
  /-- The manifest carried the digest before, and its file is still there. -/
  | kept (stamped : before.differsFrom s = false)
      (held : after.contentAt Store.manifestNames ≠ none)
  /-- Everything went well up to the history, and the manifest was stamped before that failed. -/
  | unrecorded (all : options.only = []) (clean : report.failed = [] ∧ report.generationErrors = [])
      (made saved : Project) (stored : Manifest) (stamped : stored.schemaHash = some s.hash)
      (done : ({} : Store).save stored made = (.ok (), saved)) (f : IOFailure)
      (refused : ({} : Store).saveToHistory stored now saved = (.error (.failure f), after))
      (noted : report.ioErrors = [f.message])
  /-- A stamped manifest stood where no way led to it, until the run made the directories on the
  way. -/
  | revealed (hidden : p.fileExists ({} : Store).manifestPath = .ok false) (bytes : ByteArray)
      (stored : Manifest) (held : p.contentAt Store.manifestNames = some bytes)
      (stands : after.Stands ({} : Store).manifestPath bytes)
      (parsed : ({} : Store).parsed bytes = .ok stored) (stamped : stored.differsFrom s = false)

variable {now : Moment} {options : Options} {s : Schema} {p after : Project} {report : Report}
  {before : Manifest}

/-- A manifest that was saved is the one that the next run finds, unless its file is touched. -/
theorem isUpToDate_of_save {stored : Manifest} {made saved : Project} {touched : List String → Prop}
    (done : ({} : Store).save stored made = (.ok (), saved))
    (left : Project.Touches touched saved after) (spared : ¬ touched Store.manifestNames) :
    (after.IsUpToDate s ↔ stored.schemaHash = some s.hash) ∧
    after.contentAt Store.manifestNames ≠ none := by
  obtain ⟨bytes, stands, parsed⟩ := Store.stands_of_save (by decide) done
  have stands' := stands.of_touches left (Store.namesOf_manifestPath ▸ spared)
  have content := stands'.contentAt
  rw [Store.namesOf_manifestPath] at content
  refine ⟨?_, by rw [content]; nofun⟩
  rw [Project.isUpToDate_iff]
  constructor
  · rintro ⟨other, found, stands'', parsed', stamped⟩
    have same := stands''.contentAt
    rw [Store.namesOf_manifestPath, content] at same
    obtain rfl := Option.some.inj same
    obtain rfl := Except.ok.inj (parsed.symm.trans parsed')
    exact Manifest.differsFrom_eq_false.1 stamped
  · intro stamped
    exact ⟨bytes, _, stands', parsed, Manifest.differsFrom_eq_false.2 stamped⟩

theorem not_historyTouched_manifestNames : ¬ Store.HistoryTouched Store.manifestNames := by
  rintro (absent | front)
  · exact absurd absent (by decide)
  · exact absurd front (by decide)

/-- A project whose manifest's file is spared is up to date when it was, or when the file comes in
sight. -/
theorem isUpToDate_of_spares (loaded : ({} : Store).load p = .ok before)
    (spared : Project.Spares Store.manifestNames p after) :
    after.IsUpToDate s ↔
    (before.differsFrom s = false ∧ after.contentAt Store.manifestNames ≠ none) ∨
      (p.fileExists ({} : Store).manifestPath = .ok false ∧ ∃ bytes stored,
        p.contentAt Store.manifestNames = some bytes ∧
        after.Stands ({} : Store).manifestPath bytes ∧ ({} : Store).parsed bytes = .ok stored ∧
        stored.differsFrom s = false) := by
  rw [Project.isUpToDate_iff]
  constructor
  · rintro ⟨bytes, stored, stands, parsed, stamped⟩
    have content := stands.contentAt
    rw [Store.namesOf_manifestPath] at content
    have held : p.contentAt Store.manifestNames = some bytes := by
      rcases spared.content with kept | gone
      · exact kept.symm.trans content
      · cases (gone.symm.trans content)
    rcases Store.load_eq_ok loaded with ⟨hidden, -⟩ | ⟨bytes', stands', parsed'⟩
    · exact .inr ⟨hidden, bytes, stored, held, stands, parsed, stamped⟩
    · have same := stands'.contentAt
      rw [Store.namesOf_manifestPath, held] at same
      obtain rfl := Option.some.inj same
      obtain rfl := Except.ok.inj (parsed.symm.trans parsed')
      exact .inl ⟨stamped, by rw [content]; nofun⟩
  · rintro (⟨stamped, held⟩ | ⟨-, bytes, stored, -, stands, parsed, stamped⟩)
    · rcases Store.load_eq_ok loaded with ⟨-, rfl⟩ | ⟨bytes, stands, parsed⟩
      · cases (Manifest.differsFrom_eq_false.1 stamped)
      · have content := stands.contentAt
        rw [Store.namesOf_manifestPath] at content
        obtain ⟨place, here, -⟩ := stands
        refine ⟨bytes, before,
          Project.stands_of_contentAt (Project.place?_of_keeps spared.same spared.keeps here) ?_,
          parsed, stamped⟩
        rw [Store.namesOf_manifestPath, spared.content.resolve_right held, content]
    · exact ⟨bytes, stored, stands, parsed, stamped⟩

/-- The steps of a run that is applied: those before the last, and what the last one does. -/
theorem saves_of_apply {m : Manifest} {begun : Report} {run : Run}
    (h : Run.apply now options s (Run.planned options s p m begun) = (.ok (), run)) :
    ∃ made tracked, Run.makeFiles now options s (Run.planned options s p m begun) = (.ok (), made) ∧
      made.reconciliation.manifest? = some tracked ∧
      Project.Spares Store.manifestNames p made.project ∧
      begun.Extends made.report ∧ tracked.schemaHash = m.schemaHash ∧
      Run.Saves now (Run.toSave now s (Run.isClean made.report && options.only.isEmpty) tracked)
        (Run.isClean made.report && options.only.isEmpty) made run := by
  unfold Run.apply at h
  cases making : Run.makeFiles now options s (Run.planned options s p m begun) with
  | mk outcome made =>
    rw [making] at h
    cases outcome with
    | error e => cases (Prod.mk.inj h).1
    | ok _ =>
      obtain ⟨spared, extends_, schema, store, tracked, known, hash⟩ :=
        Run.spares_of_makeFiles making
      exact ⟨made, tracked, rfl, known, spared, extends_, hash,
        Run.saves_of_saveManifest known schema store h⟩

theorem Misstamped.isUpToDate (h : Misstamped now options s p before report after)
    (kept : before.differsFrom s = false → after.contentAt Store.manifestNames ≠ none →
      after.IsUpToDate s) :
    after.IsUpToDate s := by
  cases h with
  | kept stamped held => exact kept stamped held
  | unrecorded all clean made saved stored stamped done f refused noted =>
    have touched := Store.touches_saveToHistory stored now saved
    rw [refused] at touched
    exact (isUpToDate_of_save done touched not_historyTouched_manifestNames).1.2 stamped
  | revealed hidden bytes stored held stands parsed stamped =>
    exact Project.isUpToDate_iff.2 ⟨bytes, stored, stands, parsed, stamped⟩

/-- A run that failed although its last step went well had failed before. -/
theorem dirty_of_failed {begun : Report} {made finished : Run} {entry : Option String}
    {detail : String} (extends_ : begun.Extends made.report) (input : begun.inputErrors = [])
    (validation : begun.validationErrors = [])
    (noted : finished.report = { made.report with historyEntry := entry }.addStep
      Run.saveStep true detail)
    (failed : finished.report.isSuccess = false) : Run.isClean made.report = false := by
  have inputs := extends_.inputErrors.trans input
  have validations := extends_.validationErrors.trans validation
  rw [noted] at failed
  simpa [Report.isSuccess, Report.addStep, Report.failed, Run.isClean, inputs,
    validations] using failed

/-- A manifest that is saved after a failure keeps the digest that it had. -/
theorem isUpToDate_of_saved {made : Run} {tracked : Manifest} {saved : Project}
    (dirty : Run.isClean made.report = false) (hash : tracked.schemaHash = before.schemaHash)
    (done : ({} : Store).save
      (Run.toSave now s (Run.isClean made.report && options.only.isEmpty) tracked) made.project =
      (.ok (), saved)) (entered : Project.Touches Store.HistoryTouched saved after) :
    (after.IsUpToDate s ↔ before.differsFrom s = false) ∧
    after.contentAt Store.manifestNames ≠ none := by
  have kept : (Run.toSave now s (Run.isClean made.report && options.only.isEmpty)
      tracked).schemaHash = before.schemaHash := by
    rw [dirty]
    exact hash
  obtain ⟨upToDate, held⟩ :=
    isUpToDate_of_save (s := s) done entered not_historyTouched_manifestNames
  rw [kept, ← Manifest.differsFrom_eq_false] at upToDate
  exact ⟨upToDate, held⟩

/-- A run that is not forced reports no change when the project is up to date, and only then. -/
theorem unchanged_iff_isUpToDate {strict : Bool} (valid : s.findings.isValid = true)
    (printable : (Json.object s.document).isPrintable = true) (free : p.denials = [])
    (acts : options.mode ≠ .preview) (unforced : options.force = false) :
    (∃ report left, generate now options strict s p = (.ok report, left) ∧
      report.unchanged = true) ↔ p.IsUpToDate s := by
  have same : ({ p with denials := [] } : Project) = p := by rw [← free]
  rw [Project.IsUpToDate, same]
  cases loaded : ({} : Store).load p with
  | error e =>
    refine iff_of_false ?_ (by simp)
    rintro ⟨report, left, ran, unchanged⟩
    cases opens_continueWith ran with
    | stopped cause eq => cases (Prod.mk.inj eq).1
    | refused refusal eq fails plan files same =>
      obtain rfl := Except.ok.inj (Prod.mk.inj eq).1
      cases same.symm.trans unchanged
    | planned m valid loads => cases loaded.symm.trans loads
  | ok m =>
    have ran : generate now options strict s p = decided now options s p m
        (begun options s m (emptyReport options p)) := by
      rw [generate, continueWith_eq _ valid loaded, if_pos printable]
    constructor
    · rintro ⟨report, left, eq, unchanged⟩
      refine ⟨m, rfl, ?_⟩
      rcases decided_eq_ok acts (ran.symm.trans eq) with ⟨same, -⟩ | ⟨run, applied, rfl, -⟩
      · exact same
      · obtain ⟨made, tracked, -, -, -, extends_, -, saves⟩ := saves_of_apply applied
        rw [saves.unchanged, extends_.unchanged] at unchanged
        cases unchanged
    · rintro ⟨_, eq, stamped⟩
      obtain rfl := Except.ok.inj eq
      rw [ran, decided, if_neg acts, if_pos (by simp [stamped, unforced])]
      exact ⟨_, _, rfl, rfl⟩

/-- After a run that got past its plan and failed, the project is up to date with the schema in
three cases only; in all others the next run that is not forced does not report that nothing
changed. -/
theorem isUpToDate_of_failure (acts : options.mode ≠ .preview)
    (ran : Runs now options s p report after) (planned : report.plan ≠ none)
    (past : report.unchanged = false) (failed : report.isSuccess = false) :
    (∃ before, ({} : Store).load p = .ok before ∧
      (after.IsUpToDate s ↔ Misstamped now options s p before report after)) ∧
    ∀ (later : Moment) (next : Options) (strict : Bool), next.mode ≠ .preview → next.force = false →
      ((∃ again left,
        generate later next strict s { after with denials := [] } = (.ok again, left) ∧
          again.unchanged = true) ↔ after.IsUpToDate s) := by
  obtain ⟨⟨valid, printable⟩, before, begun, run, loaded, input, validation, applied, rfl, rfl⟩ :=
    applied_of_runs acts ran planned past
  refine ⟨⟨before, loaded, ?_⟩, fun later next strict acts unforced =>
    unchanged_iff_isUpToDate valid printable rfl acts unforced⟩
  obtain ⟨made, tracked, -, -, spared, extends_, hash, saves⟩ := saves_of_apply applied
  cases saves with
  | unsaved f refused noted =>
    have spared' := spared.trans ((Store.touches_save_of_error refused).spares not_false)
    have cases := isUpToDate_of_spares (s := s) loaded spared'
    constructor
    · intro upToDate
      rcases cases.1 upToDate with ⟨stamped, held⟩ | ⟨hidden, bytes, stored, held, stands,
        parsed, stamped⟩
      · exact .kept stamped held
      · exact .revealed hidden bytes stored held stands parsed stamped
    · exact fun misstamped => misstamped.isUpToDate fun stamped held =>
        cases.2 (.inl ⟨stamped, held⟩)
  | unrecorded saved f stamped done refused noted =>
    have touched := Store.touches_saveToHistory
      (Run.toSave now s (Run.isClean made.report && options.only.isEmpty) tracked) now saved
    rw [refused] at touched
    have clean := (Bool.and_eq_true_iff.1 stamped).1
    have all := (Bool.and_eq_true_iff.1 stamped).2
    have hashed : (Run.toSave now s (Run.isClean made.report && options.only.isEmpty)
        tracked).schemaHash = some s.hash := by
      rw [stamped]
      rfl
    simp only [Run.isClean, Bool.and_eq_true, List.isEmpty_iff] at clean
    have noted' : run.report.ioErrors = [f.message] ∧ run.report.failed = [] ∧
        run.report.generationErrors = [] := by
      rw [noted]
      exact ⟨by simp [Report.addStep, clean.1.2], clean.2, clean.1.1⟩
    refine iff_of_true ((isUpToDate_of_save done touched not_historyTouched_manifestNames).1.2
      hashed) ?_
    exact .unrecorded (List.isEmpty_iff.1 all) noted'.2 made.project saved _ hashed done f
      refused noted'.1
  | saved saved entry detail done entered noted =>
    have dirty := dirty_of_failed extends_ input validation noted failed
    obtain ⟨upToDate, held⟩ := isUpToDate_of_saved dirty hash done entered
    exact ⟨fun is => .kept (upToDate.1 is) held, fun misstamped => misstamped.isUpToDate
      fun stamped _ => upToDate.2 stamped⟩

/-- A schema of one entity with one field. -/
def tagSchema : Schema :=
  let fields : Json := .object [("label", .string "string")]
  match Schema.build [("meta", .object []),
      ("models", .object [("Tag", .object [("fields", fields)])])] with
  | .ok s => s
  | .error _ => Manifest.noSchema

/-- A project that was generated from the schema, by its manifest, and in which only that can be
written now. -/
def closedProject : Project :=
  let p : Project := { disk := Disk.blank, root := Path.ofText "project" }
  let stamp := "\x7b\"schema_hash\": \"" ++ tagSchema.hash ++ "\"\x7d"
  let files :=
    [".env", "app/Models/Tag.php", "routes/api.php", "database/seeders/DatabaseSeeder.php",
      "app/Providers/AuthServiceProvider.php", "app/Providers/ObserverServiceProvider.php"]
  { (p.writeText ".ai-native-manifest.json" stamp).2 with
    denials := ⟨.glob, "database/migrations/*_create_tags_table.php", "injected"⟩ ::
      files.map fun path => ⟨.write, path, "injected"⟩ }

/-- The options of a run that is forced. -/
def forced : Options := { force := true }

def noon : Moment := ⟨2024, 1, 1, 12, 0, 0, 0, none⟩

/-- The manifest of the project carries the digest of the schema, and a forced run fails, but its
last step does not. -/
theorem checked_closedProject :
    (succeeds (({} : Store).load closedProject) (fun stored => !stored.differsFrom tagSchema) &&
      succeeds (generate noon forced false tagSchema closedProject).1
        (fun report => report.plan.isSome && !report.unchanged && !report.isSuccess &&
          report.steps.getLast?.map (·.success) == some true)) = true := by
  decide +kernel

theorem forced_closedProject :
    ∃ report after, generate noon forced false tagSchema closedProject = (.ok report, after) ∧
    report.plan ≠ none ∧ report.unchanged = false ∧ report.isSuccess = false ∧
    report.steps.getLast?.map (·.success) = some true := by
  obtain ⟨report, ran, holds⟩ := succeeds_eq_true.1 (Bool.and_eq_true_iff.1 checked_closedProject).2
  simp only [Bool.and_eq_true, Bool.not_eq_true', beq_iff_eq] at holds
  obtain ⟨⟨⟨planned, past⟩, failed⟩, saved⟩ := holds
  exact ⟨report, _, Prod.fst_eq_iff.1 ran, Option.isSome_iff_ne_none.1 planned, past, failed, saved⟩

theorem closedProject_stamped {before : Manifest}
    (loaded : ({} : Store).load closedProject = .ok before) :
    before.differsFrom tagSchema = false := by
  obtain ⟨stored, loaded', stamped⟩ :=
    succeeds_eq_true.1 (Bool.and_eq_true_iff.1 checked_closedProject).1
  obtain rfl := Except.ok.inj (loaded.symm.trans loaded')
  simpa using stamped

/-- The forced run is one of the three cases. -/
theorem isUpToDate_of_failure_closedProject :
    ∃ report after before, Runs noon forced tagSchema closedProject report after ∧
    report.isSuccess = false ∧ ({} : Store).load closedProject = .ok before ∧
      (after.IsUpToDate tagSchema ↔
        Misstamped noon forced tagSchema closedProject before report after) := by
  obtain ⟨report, after, ran, planned, past, failed, -⟩ := forced_closedProject
  have acts : forced.mode ≠ .preview := by decide
  obtain ⟨⟨before, loaded, iff⟩, -⟩ :=
    isUpToDate_of_failure acts (.ofSchema false ran) planned past failed
  exact ⟨report, after, before, .ofSchema false ran, failed, loaded, iff⟩

/-- A run that fails can leave a project that is up to date. -/
theorem failure_leaves_stamp : ¬ ∀ (now : Moment) (options : Options) (s : Schema)
    (p after : Project) (report : Report), options.mode ≠ .preview →
    Runs now options s p report after → report.plan ≠ none → report.unchanged = false →
      report.isSuccess = false → ¬ after.IsUpToDate s := by
  intro claimed
  obtain ⟨report, after, ran, planned, past, failed, last⟩ := forced_closedProject
  have acts : forced.mode ≠ .preview := by decide
  have runs : Runs noon forced tagSchema closedProject report after := .ofSchema false ran
  refine claimed noon forced tagSchema closedProject after report acts runs planned past failed ?_
  obtain ⟨-, before, begun, run, loaded, input, validation, applied, rfl, rfl⟩ :=
    applied_of_runs acts runs planned past
  obtain ⟨made, tracked, -, -, -, extends_, hash, saves⟩ := saves_of_apply applied
  cases saves with
  | unsaved f refused noted => exact absurd last (by simp [noted, Report.addStep])
  | unrecorded saved f stamped done refused noted =>
    exact absurd last (by simp [noted, Report.addStep])
  | saved saved entry detail done entered noted =>
    have dirty := dirty_of_failed extends_ input validation noted failed
    exact (isUpToDate_of_saved dirty hash done entered).1.2 (closedProject_stamped loaded)

end Generation
end Scaffold
