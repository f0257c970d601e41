import Mathlib.Logic.Relation
import Scaffold.Generation
import Scaffold.Proofs.Manifest.Tracking
import Scaffold.Proofs.Reconciliation.Requests

/-!
# What the pieces of a run change

Making files is a sequence of few kinds of changes: `Run.changes_emitAll`. So what each kind keeps,
any piece of a run keeps. `Run.Moved` is kept by all of them: files are touched at some names only,
the manifest keeps its digest, and failures are only added to the report.
-/

namespace Scaffold
set_option autoImplicit false

/-- A report that goes on from another. What was planned stays, files are only added, and no failure
is taken back. -/
structure Report.Extends (before after : Report) : Prop where
  inputErrors : after.inputErrors = before.inputErrors
  validationErrors : after.validationErrors = before.validationErrors
  plan : after.plan = before.plan
  unchanged : after.unchanged = before.unchanged
  files : before.files <+: after.files
  clean : Run.isClean after = true → Run.isClean before = true

namespace Report

variable {r : Report}

theorem Extends.refl (r : Report) : Extends r r := ⟨rfl, rfl, rfl, rfl, List.prefix_rfl, id⟩

theorem Extends.trans {a b c : Report} (first : Extends a b) (second : Extends b c) : Extends a c :=
  ⟨second.inputErrors.trans first.inputErrors, second.validationErrors.trans first.validationErrors,
    second.plan.trans first.plan, second.unchanged.trans first.unchanged,
    first.files.trans second.files, fun clean => first.clean (second.clean clean)⟩

theorem isClean_addFile (kind path : String) (action : FileAction) :
    Run.isClean (r.addFile kind path action) = Run.isClean r := by
  simp [Run.isClean, addFile, failed, FileResult.isSuccess]

theorem extends_addFile (kind path : String) (action : FileAction) :
    Extends r (r.addFile kind path action) :=
  ⟨rfl, rfl, rfl, rfl, List.prefix_append .., fun clean => by rwa [isClean_addFile] at clean⟩

theorem isClean_addIOFailure (kind path : String) (action : FileAction) (f : IOFailure) :
    Run.isClean (r.addIOFailure kind path action f) = false := by
  simp [Run.isClean, addIOFailure]

theorem extends_addIOFailure (kind path : String) (action : FileAction) (f : IOFailure) :
    Extends r (r.addIOFailure kind path action f) :=
  ⟨rfl, rfl, rfl, rfl, List.prefix_append .., fun clean => by simp [isClean_addIOFailure] at clean⟩

theorem isClean_addRenderFailure (kind path : String) (action : FileAction)
    (e : Text.NumeralError) : Run.isClean (r.addRenderFailure kind path action e) = false := by
  simp [Run.isClean, addRenderFailure]

theorem extends_addRenderFailure (kind path : String) (action : FileAction)
    (e : Text.NumeralError) : Extends r (r.addRenderFailure kind path action e) :=
  ⟨rfl, rfl, rfl, rfl, List.prefix_append .., fun clean =>
    by simp [isClean_addRenderFailure] at clean⟩

theorem isClean_addStep (name : String) (success : Bool) (detail : String) :
    Run.isClean (r.addStep name success detail) = Run.isClean r := rfl

theorem extends_addStep (name : String) (success : Bool) (detail : String) :
    Extends r (r.addStep name success detail) :=
  ⟨rfl, rfl, rfl, rfl, List.prefix_rfl, id⟩

end Report

namespace Run

/-- One change of a run that makes files. Files are touched at some names only, and only some paths
are recorded or lose their records. -/
inductive Change (now : Moment) (touched : List String → Prop) (tracked : String → Prop)
    (run : Run) : Run → Prop where
  | noted (report : Report)
      (further : run.report.Extends report) : Change now touched tracked run { run with report }
  | counted (migrations : Nat) : Change now touched tracked run { run with migrations }
  | worked (project : Project) (changed : Project.Touches touched run.project project) :
      Change now touched tracked run { run with project }
  | recorded (kind path : String) (metadata : Json.Members) (record : FileRecord)
      (m left : Manifest) (isTracked : tracked path)
      (known : run.reconciliation.manifest? = some m)
      (made : m.trackFile run.project kind path metadata now = .ok (record, left)) :
      Change now touched tracked run
        { run with reconciliation := { run.reconciliation with manifest? := some left } }
  | forgot (path : String) (m : Manifest) (isTracked : tracked path)
      (known : run.reconciliation.manifest? = some m) :
      Change now touched tracked run
        { run with reconciliation := { run.reconciliation with
          manifest? := some (m.remove path).2 } }

/-- Changes one after another. -/
abbrev Changes (now : Moment) (touched : List String → Prop) (tracked : String → Prop) :
    Run → Run → Prop :=
  Relation.ReflTransGen (Change now touched tracked)

variable {now : Moment} {mode : Mode} {touched : List String → Prop}
  {tracked : String → Prop} {run : Run}

theorem Changes.mono {more : List String → Prop} {others : String → Prop} {before after : Run}
    (h : Changes now touched tracked before after) (within : ∀ names, touched names → more names)
    (among : ∀ path, tracked path → others path) : Changes now more others before after := by
  refine h.lift id fun a b change => ?_
  cases change with
  | noted report further => exact .noted report further
  | counted migrations => exact .counted migrations
  | worked project changed => exact .worked project (changed.mono within)
  | recorded kind path metadata record m left isTracked known made =>
    exact .recorded kind path metadata record m left (among path isTracked) known made
  | forgot path m isTracked known => exact .forgot path m (among path isTracked) known

theorem changes_failed (kind path : String) (action : FileAction) (f : IOFailure) :
    Changes now touched tracked run (run.log (·.addIOFailure kind path action f)) :=
  .single (.noted _ (Report.extends_addIOFailure kind path action f))

theorem not_isClean_failed (kind path : String) (action : FileAction) (f : IOFailure) :
    ¬ isClean (run.log (·.addIOFailure kind path action f)).report = true := fun clean =>
  Bool.false_ne_true ((Report.isClean_addIOFailure kind path action f).symm.trans clean)

theorem changes_record (kind : ArtifactKind) {path : String} (action : FileAction)
    (metadata : Json.Members) (isTracked : tracked path) :
    Changes now touched tracked run (record now kind path action metadata run).2 := by
  unfold record
  split
  · rename_i written reconciliation recorded
    obtain ⟨m, left, known, made, rfl⟩ := Reconciliation.record_eq_ok recorded
    exact .tail (.single (.recorded kind.name path metadata written m left isTracked known made))
      (.noted _ (Report.extends_addFile _ _ _))
  · exact changes_failed _ _ _ _
  · exact .refl

theorem changes_store (kind : ArtifactKind) {path : String} (action : FileAction) (text : String)
    (metadata : Json.Members) (isTouched : touched (namesOf path)) (isTracked : tracked path) :
    Changes now touched tracked run (store now kind path action text metadata run).2 := by
  have changed :=
    (run.project.touches_write path text.toUTF8).mono fun names same => same ▸ isTouched
  rw [← Project.writeText] at changed
  unfold store
  cases written : run.project.writeText path text with
  | mk outcome project =>
    rw [written] at changed
    have worked : Changes now touched tracked run { run with project } :=
      .single (.worked project changed)
    cases outcome with
    | ok size => exact worked.trans (changes_record kind action metadata isTracked)
    | error e =>
      cases e with
      | failure f => exact worked.trans (changes_failed _ _ _ _)
      | _ => exact worked

theorem changes_storeRendered (kind : ArtifactKind) {path : String} (action : FileAction)
    (text : Except Text.NumeralError String) (metadata : Json.Members)
    (isTouched : touched (namesOf path))
    (isTracked : tracked path) :
    Changes now touched tracked run (storeRendered now kind path action text metadata run).2 := by
  unfold storeRendered
  split
  · exact changes_store kind action _ metadata isTouched isTracked
  · exact .single (.noted _ (Report.extends_addRenderFailure _ _ _ _))

theorem changes_emitWhole (kind : ArtifactKind) {path : String}
    (text : Except Text.NumeralError String) (metadata : Json.Members)
    (isTouched : touched (namesOf path)) (isTracked : tracked path) :
    Changes now touched tracked run (emitWhole now mode kind path text metadata run).2 := by
  unfold emitWhole
  split
  · exact .refl
  · split
    · exact changes_record kind .skipped metadata isTracked
    · exact changes_storeRendered kind .overwritten text metadata isTouched isTracked
  · exact changes_storeRendered kind .created text metadata isTouched isTracked

theorem changes_emitMerged (kind : ArtifactKind) {path : String} (markers : Markers)
    (body : List String) (fresh : String) (anchor : Option String) (indent : String)
    (isTouched : touched (namesOf path)) (isTracked : tracked path) :
    Changes now touched tracked run
      (emitMerged now kind path markers body fresh anchor indent run).2 := by
  unfold emitMerged
  split
  · exact .refl
  · exact changes_store kind .created fresh [] isTouched isTracked
  · split
    · exact changes_store kind _ _ [] isTouched isTracked
    · exact changes_failed _ _ _ _
    · exact .refl

theorem changes_recordAll (kind : ArtifactKind) (metadata : Json.Members) {paths : List String}
    (among : ∀ path ∈ paths, tracked path) :
    Changes now touched tracked run (recordAll now kind metadata paths run).2 := by
  induction paths generalizing run with
  | nil => exact .refl
  | cons path rest ih =>
    have first : Changes now touched tracked run (record now kind path .skipped metadata run).2 :=
      changes_record kind .skipped metadata (among path (List.mem_cons_self ..))
    unfold recordAll
    cases recorded : record now kind path .skipped metadata run with
    | mk outcome after =>
      rw [recorded] at first
      cases outcome with
      | ok _ => exact first.trans (ih fun other mem => among other (List.mem_cons_of_mem path mem))
      | error e => exact first

theorem changes_deleteAll (kind : ArtifactKind) {paths : List String}
    (within : ∀ path ∈ paths, touched (namesOf path)) :
    Changes now touched tracked run (deleteAll kind paths run).2 := by
  induction paths generalizing run with
  | nil => exact .refl
  | cons path rest ih =>
    have further := fun other mem => within other (List.mem_cons_of_mem path mem)
    unfold deleteAll
    split
    · rename_i found project deleted
      have changed : Project.Touches touched run.project project :=
        (Project.touches_delete deleted).mono
        fun names same => same ▸ within path (List.mem_cons_self ..)
      exact .trans (.single (.worked project changed)) (ih further)
    · exact changes_failed _ _ _ _
    · exact .refl

theorem changes_forgetAll {paths : List String} {after : Reconciliation}
    (among : ∀ path ∈ paths, tracked path) (h : forgetAll paths run.reconciliation = .ok after) :
    Changes now touched tracked run { run with reconciliation := after } := by
  induction paths generalizing run with
  | nil =>
    obtain rfl := Except.ok.inj h
    exact .refl
  | cons path rest ih =>
    simp only [forgetAll, bind, Except.bind] at h
    cases forgotten : run.reconciliation.forget path with
    | error e => simp [forgotten] at h
    | ok result =>
      simp only [forgotten] at h
      obtain ⟨m, known, eq⟩ := Reconciliation.forget_eq_ok forgotten
      rw [eq] at h
      have first : Changes now touched tracked run _ :=
        .single (.forgot path m (among path (List.mem_cons_self ..)) known)
      exact first.trans (ih (fun other mem => among other (List.mem_cons_of_mem path mem)) h)

/-- Dropping the records of paths takes out theirs only. -/
theorem forgetAll_eq_ok {paths : List String} {r after : Reconciliation} {m : Manifest}
    (known : r.manifest? = some m) (h : forgetAll paths r = .ok after) :
    ∃ left, after = { r with manifest? := some left } ∧
      ∀ x, x ∈ left.records ↔ x ∈ m.records ∧ x.2.1 ∉ paths := by
  induction paths generalizing r m with
  | nil =>
    obtain rfl := Except.ok.inj h
    exact ⟨m, by rw [← known], by simp⟩
  | cons path rest ih =>
    simp only [forgetAll, bind, Except.bind] at h
    cases forgotten : r.forget path with
    | error e => simp [forgotten] at h
    | ok result =>
      simp only [forgotten] at h
      obtain ⟨m', known', eq⟩ := Reconciliation.forget_eq_ok forgotten
      obtain rfl := Option.some.inj (known.symm.trans known')
      obtain ⟨left, same, records⟩ := ih (by rw [eq]) h
      refine ⟨left, by rw [same, eq], fun x => ?_⟩
      rw [records, Manifest.mem_records_remove, List.mem_cons, not_or, and_assoc]

/-- Dropping the records of the paths that a pattern covers changes nothing else. -/
theorem forgetCovered_eq_ok {pattern : String} {after : Run}
    (h : forgetCovered pattern run = .ok after) :
    ∃ m left, run.reconciliation.manifest? = some m ∧
      after = { run with reconciliation := { run.reconciliation with manifest? := some left } } ∧
      ∀ x, x ∈ left.records ↔ x ∈ m.records ∧ Pattern.covers pattern x.2.1 = false := by
  cases known : run.reconciliation.manifest? with
  | none =>
    simp [forgetCovered, Reconciliation.manifest, known, Reconciliation.known,
      Reconciliation.refuse, bind, Except.bind] at h
  | some m =>
    simp only [forgetCovered, Reconciliation.manifest, known, Reconciliation.known, bind,
      Except.bind] at h
    split at h
    · cases h
    · rename_i reconciliation forgotten
      obtain rfl := Except.ok.inj h
      obtain ⟨left, rfl, records⟩ := forgetAll_eq_ok known forgotten
      refine ⟨m, left, rfl, rfl, fun x => ?_⟩
      rw [records]
      refine and_congr_right fun isRecord => ?_
      have tracked : x.2.1 ∈ m.trackedPaths := Manifest.mem_trackedPaths.2 ⟨x, isRecord, rfl⟩
      rw [List.mem_filter, and_iff_right tracked, Bool.not_eq_true]

theorem nextMoment_eq_ok {moment : Moment} (h : nextMoment now run = .ok moment) :
    now.plusSeconds? run.migrations = some moment := by
  unfold nextMoment at h
  split at h
  · rename_i found
    rw [found, Except.ok.inj h]
  · cases h

theorem changes_forgetCovered {pattern : String} {after : Run}
    (among : ∀ path, Pattern.covers pattern path = true → tracked path)
    (h : forgetCovered pattern run = .ok after) : Changes now touched tracked run after := by
  simp only [forgetCovered, bind, Except.bind] at h
  split at h
  · cases h
  · split at h
    · cases h
    · rename_i forgotten
      obtain rfl := Except.ok.inj h
      exact changes_forgetAll (fun path mem => among path (List.mem_filter.1 mem).2) forgotten

/-- The names with which every migration begins. -/
def migrationNames : List String := ["database", "migrations"]

/-- The path of a migration, with its names apart. -/
theorem migrationPath_eq (moment : Moment) (suffix : String) :
    Artifact.migrationPath moment suffix = Text.join "/" migrationNames ++ "/" ++
      (moment.underscored ++ suffix) := by
  have front : Text.join "/" migrationNames = "database/migrations" := by decide
  rw [front, Artifact.migrationPath, Artifact.migrationsDirectory]
  simp only [String.append_assoc]

/-- The pattern of migrations, with its names apart. -/
theorem migrationPattern_eq (suffix : String) :
    Artifact.migrationPattern suffix = Text.join "/" migrationNames ++ "/" ++ ("*" ++ suffix) := by
  have front : Text.join "/" migrationNames = "database/migrations" := by decide
  have star : "/*" = "/" ++ "*" := by decide
  rw [front, Artifact.migrationPattern, Artifact.migrationsDirectory, star]
  simp only [String.append_assoc]

theorem namesOf_migrationNames : namesOf (Text.join "/" migrationNames) = migrationNames := by
  decide

theorem prefix_migrationPath (moment : Moment) (suffix : String) :
    migrationNames <+: namesOf (Artifact.migrationPath moment suffix) := by
  rw [migrationPath_eq, namesOf_append, namesOf_migrationNames]
  exact List.prefix_append ..

theorem prefix_migrationPattern (suffix : String) :
    migrationNames <+: namesOf (Artifact.migrationPattern suffix) := by
  rw [migrationPattern_eq, namesOf_append, namesOf_migrationNames]
  exact List.prefix_append ..

theorem prefix_of_mem_migrations {p : Project} {suffix : String} {files : List String}
    (h : p.glob (Artifact.migrationPattern suffix) = .ok files) :
    ∀ file ∈ files, migrationNames <+: namesOf file := by
  rw [migrationPattern_eq] at h
  exact fun file mem => Project.prefix_of_mem_glob (by decide) (by decide) (by decide) h mem

/-- A path is, by its name or as a file that is there, a migration whose name ends so. -/
inductive IsMigration (suffix path : String) : Prop where
  | named (moment : Moment) (eq : path = Artifact.migrationPath moment suffix)
  | covered (covered : Pattern.covers (Artifact.migrationPattern suffix) path = true)
  | found (p : Project) (files : List String)
      (found : p.glob (Artifact.migrationPattern suffix) = .ok files) (mem : path ∈ files)

variable {suffix : String}

/-- Writing a migration touches the file of the next moment only. -/
theorem changes_writeMigration (action : FileAction) (text : Except Text.NumeralError String)
    (metadata : Json.Members) :
    Changes now (fun names => ∃ named moment, now.plusSeconds? named = some moment ∧
      names = namesOf (Artifact.migrationPath moment suffix))
      (IsMigration suffix) run (writeMigration now suffix action text metadata run).2 := by
  unfold writeMigration
  split
  · exact .refl
  · rename_i forgot forgotten
    have first : Changes now (fun names => ∃ named moment, now.plusSeconds? named = some moment ∧
        names = namesOf (Artifact.migrationPath moment suffix)) (IsMigration suffix) run forgot :=
      changes_forgetCovered (fun path covered => .covered covered) forgotten
    split
    · exact first
    · rename_i moment next
      exact (first.tail (.counted (forgot.migrations + 1))).trans
        (changes_storeRendered .migrations action text metadata ⟨_, moment, nextMoment_eq_ok next,
          rfl⟩ (.named moment rfl))

end Run

namespace Emission

/-- The names at which making a file changes what is there: those of its path, and for a migration
also those of the files that its pattern finds. -/
def Alters (now : Moment) : Emission → List String → Prop
  | .whole _ path _ _, names => names = namesOf path
  | .merged _ path _ _ _ _ _, names => names = namesOf path
  | .migration suffix _ _, names =>
    (∃ named moment, now.plusSeconds? named = some moment ∧
      names = namesOf (Artifact.migrationPath moment suffix)) ∨
      ∃ p files, Project.glob p (Artifact.migrationPattern suffix) = .ok files ∧ ∃ file ∈ files,
      names = namesOf file

/-- The names that making a file touches. -/
def Touched : Emission → List String → Prop
  | .whole _ path _ _, names => names = namesOf path
  | .merged _ path _ _ _ _ _, names => names = namesOf path
  | .migration _ _ _, names => Run.migrationNames <+: names

/-- The paths that making a file records, or of which it drops the records. -/
def Tracked : Emission → String → Prop
  | .whole _ path _ _, other => other = path
  | .merged _ path _ _ _ _ _, other => other = path
  | .migration suffix _ _, other => Run.IsMigration suffix other

theorem touched_of_alters {now : Moment} {e : Emission} {names : List String}
    (h : e.Alters now names) : e.Touched names := by
  cases e with
  | whole kind path text metadata => exact h
  | merged kind path markers body fresh anchor indent => exact h
  | migration suffix text metadata =>
    rcases h with ⟨_, moment, -, eq⟩ | ⟨p, files, found, file, mem, eq⟩
    · exact eq ▸ Run.prefix_migrationPath moment suffix
    · exact eq ▸ Run.prefix_of_mem_migrations found file mem

end Emission

namespace Run

variable {now : Moment} {mode : Mode} {touched : List String → Prop}
  {tracked : String → Prop} {run : Run}

theorem changes_emitMigration {suffix : String} (text : Except Text.NumeralError String)
    (metadata : Json.Members) :
    Changes now ((Emission.migration suffix text metadata).Alters now) (IsMigration suffix) run
      (emitMigration now mode suffix text metadata run).2 := by
  unfold emitMigration
  dsimp only
  split
  · exact changes_failed _ _ _ _
  · exact .refl
  · rename_i existing found
    split
    · exact changes_recordAll .migrations metadata fun path mem =>
        .found run.project existing found mem
    · have deleted : Changes now ((Emission.migration suffix text metadata).Alters now)
          (IsMigration suffix) run (deleteAll .migrations existing run).2 :=
        changes_deleteAll .migrations fun file mem =>
          .inr ⟨run.project, existing, found, file, mem, rfl⟩
      cases deletion : deleteAll .migrations existing run with
      | mk outcome after =>
        rw [deletion] at deleted
        cases outcome with
        | error e => exact deleted
        | ok all =>
          cases all with
          | false => exact deleted
          | true =>
            exact deleted.trans ((changes_writeMigration _ text metadata).mono (fun _ => .inl)
              fun _ tracked => tracked)

/-- Making a file changes no more than what belongs to it. -/
theorem altered_emit (emission : Emission) :
    Changes now (emission.Alters now) emission.Tracked run (emit now mode run emission).2 := by
  cases emission with
  | whole kind path text metadata => exact changes_emitWhole kind text metadata rfl rfl
  | merged kind path markers body fresh anchor indent =>
    exact changes_emitMerged kind markers body fresh anchor indent rfl rfl
  | migration suffix text metadata => exact changes_emitMigration text metadata

theorem changes_emit (emission : Emission) :
    Changes now emission.Touched emission.Tracked run (emit now mode run emission).2 :=
  (altered_emit emission).mono (fun _ => Emission.touched_of_alters) fun _ => id

/-- Making files changes what belongs to one of them. -/
theorem altered_emitAll {emissions : List Emission}
    (within : ∀ e ∈ emissions, ∀ names, e.Alters now names → touched names)
    (among : ∀ e ∈ emissions, ∀ path, e.Tracked path → tracked path) :
    Changes now touched tracked run (emitAll now mode emissions run).2 := by
  induction emissions generalizing run with
  | nil => exact .refl
  | cons emission rest ih =>
    have first : Changes now touched tracked run (emit now mode run emission).2 :=
      (altered_emit emission).mono (within emission (List.mem_cons_self ..))
        (among emission (List.mem_cons_self ..))
    unfold emitAll
    cases made : emit now mode run emission with
    | mk outcome after =>
      rw [made] at first
      cases outcome with
      | ok _ =>
        exact first.trans (ih (fun e mem => within e (List.mem_cons_of_mem _ mem)) fun e mem =>
          among e (List.mem_cons_of_mem _ mem))
      | error e => exact first

theorem changes_emitAll {emissions : List Emission}
    (within : ∀ e ∈ emissions, ∀ names, e.Touched names → touched names)
    (among : ∀ e ∈ emissions, ∀ path, e.Tracked path → tracked path) :
    Changes now touched tracked run (emitAll now mode emissions run).2 :=
  altered_emitAll (fun e mem names alters =>
    within e mem names (Emission.touched_of_alters alters)) among

/-- What a piece of a run leaves alone. -/
structure Moved (touched : List String → Prop) (before after : Run) : Prop where
  project : Project.Touches touched before.project after.project
  reconciliation : after.reconciliation =
    { before.reconciliation with manifest? := after.reconciliation.manifest? }
  hash : after.reconciliation.manifest?.map (·.schemaHash) = before.reconciliation.manifest?.map
    (·.schemaHash)
  report : before.report.Extends after.report

theorem Moved.refl (touched : List String → Prop) (run : Run) : Moved touched run run :=
  ⟨.refl _ _, rfl, rfl, .refl _⟩

theorem Moved.trans {a b c : Run} (first : Moved touched a b) (second : Moved touched b c) :
    Moved touched a c :=
  ⟨first.project.trans second.project, by rw [second.reconciliation, first.reconciliation],
    second.hash.trans first.hash, first.report.trans second.report⟩

theorem Change.moved {before after : Run} (h : Change now touched tracked before after) :
    Moved touched before after := by
  cases h with
  | noted report further => exact ⟨.refl _ _, rfl, rfl, further⟩
  | counted migrations => exact ⟨.refl _ _, rfl, rfl, .refl _⟩
  | worked project changed => exact ⟨changed, rfl, rfl, .refl _⟩
  | recorded kind path metadata record m left isTracked known made =>
    obtain ⟨_, -, eq⟩ := map_eq_ok.1 made
    obtain ⟨-, rfl⟩ := Prod.mk.inj eq
    refine ⟨.refl _ _, rfl, ?_, .refl _⟩
    rw [known]
    rfl
  | forgot path m isTracked known =>
    refine ⟨.refl _ _, rfl, ?_, .refl _⟩
    rw [known]
    rfl

/-- The records of paths that are neither recorded nor dropped stay as they are. -/
theorem Change.records {before after : Run} {m : Manifest}
    (h : Change now touched tracked before after)
    (known : before.reconciliation.manifest? = some m) :
    ∃ left, after.reconciliation.manifest? = some left ∧
      ∀ r, ¬ tracked r.2.1 → (r ∈ left.records ↔ r ∈ m.records) := by
  cases h with
  | noted report further => exact ⟨m, known, fun _ _ => Iff.rfl⟩
  | counted migrations => exact ⟨m, known, fun _ _ => Iff.rfl⟩
  | worked project changed => exact ⟨m, known, fun _ _ => Iff.rfl⟩
  | recorded kind path metadata record m' left isTracked known' made =>
    obtain rfl := Option.some.inj (known.symm.trans known')
    obtain ⟨record', -, eq⟩ := map_eq_ok.1 made
    obtain ⟨rfl, rfl⟩ := Prod.mk.inj eq
    refine ⟨_, rfl, fun r untracked => ?_⟩
    have apart : r.2.1 ≠ path := fun same => untracked (same ▸ isTracked)
    have other : r ≠ (kind, path, record') := fun same => apart (by rw [same])
    simp [Manifest.mem_records_track, apart, other]
  | forgot path m' isTracked known' =>
    obtain rfl := Option.some.inj (known.symm.trans known')
    refine ⟨_, rfl, fun r untracked => ?_⟩
    have apart : r.2.1 ≠ path := fun same => untracked (same ▸ isTracked)
    simp [Manifest.mem_records_remove, apart]

theorem Changes.records {before after : Run} {m : Manifest}
    (h : Changes now touched tracked before after)
    (known : before.reconciliation.manifest? = some m) :
    ∃ left, after.reconciliation.manifest? = some left ∧
      ∀ r, ¬ tracked r.2.1 → (r ∈ left.records ↔ r ∈ m.records) := by
  induction h with
  | refl => exact ⟨m, known, fun _ _ => Iff.rfl⟩
  | tail _ change ih =>
    obtain ⟨between, known, first⟩ := ih
    obtain ⟨left, known, second⟩ := change.records known
    exact ⟨left, known, fun r untracked => (second r untracked).trans (first r untracked)⟩

theorem Changes.moved {before after : Run} (h : Changes now touched tracked before after) :
    Moved touched before after := by
  induction h with
  | refl => exact .refl touched before
  | tail _ change ih => exact ih.trans change.moved

end Run
end Scaffold
