import Scaffold.Proofs.Generation.Making
import Scaffold.Proofs.Project.Interrupting

/-!
# What becomes of each file

A run attempts every file that it makes. `Run.Attempts` lists what can become of one: it is written,
or kept by a merge, or noted as failed with its error, and then the run goes on. `Emission.Stops`
lists what ends the run instead: a path that leads out of the project or that no disk can deal with,
and the end of the calendar. The main statement is `Run.ends_emitAll`.
-/

namespace Scaffold
set_option autoImplicit false

open Text (NumeralError)

/-- A pattern of migrations can be searched for, or names any depth within a name. -/
theorem Artifact.depthInName_of_migrationPattern {suffix : String} {wrong : Glob.Invalid}
    (h : Glob.ofText (migrationPattern suffix) = .error wrong) : wrong = .depthInName := by
  have chars : (migrationPattern suffix).toList =
      'd' :: ("atabase/migrations/*".toList ++ suffix.toList) := by
    simp [migrationPattern, migrationsDirectory]
  have filled : (migrationPattern suffix).isEmpty = false := by
    rw [Bool.eq_false_iff, ne_eq, String.isEmpty_iff, ← String.toList_eq_nil_iff, chars]
    exact List.cons_ne_nil _ _
  have relative : (Path.ofText (migrationPattern suffix)).isAbsolute = false := by
    rw [Path.isAbsolute, Path.ofText, chars]
    rfl
  have names : (Path.ofText (migrationPattern suffix)).names.isEmpty = false := by
    obtain ⟨rest, names⟩ := Run.prefix_migrationPattern suffix
    rw [namesOf] at names
    rw [← names]
    rfl
  simp only [Glob.ofText, filled, relative, names, Bool.false_eq_true, if_false, bind, Except.bind,
    pure, Except.pure] at h
  cases steps : (Path.ofText (migrationPattern suffix)).names.mapM Glob.stepOf with
  | ok found =>
    rw [steps] at h
    cases h
  | error e =>
    rw [steps] at h
    obtain ⟨name, -, stepped⟩ := exists_of_mapM_error steps
    exact (Except.error.inj h).symm.trans (Glob.stepOf_error stepped)

namespace Reconciliation

variable {r : Reconciliation} {p : Project} {cause : Interruption}

/-- Recording a file is refused where that is out of order; otherwise it ends with the look at the
file or as it is read. -/
theorem record_error_cases {kind path : String} {metadata : Json.Members} {now : Moment}
    (h : r.record p kind path metadata now = .error cause) :
    (r.state ≠ .reconciled ∨ r.manifest? = none) ∧ (∀ f, cause ≠ .failure f) ∨
    p.fileExists path = .error cause ∨
      p.read path = .error cause := by
  simp only [record, expect, manifest, bind, Except.bind] at h
  by_cases state : r.state = .reconciled
  · rw [if_pos state] at h
    cases known : r.manifest? with
    | none =>
      simp only [known, Reconciliation.known, refuse] at h
      obtain rfl := Except.error.inj h
      exact .inl ⟨.inr rfl, fun _ same => by cases same⟩
    | some m =>
      simp only [known, Reconciliation.known, Manifest.trackFile] at h
      cases recorded : FileRecord.ofFile p path metadata now with
      | ok record =>
        rw [recorded] at h
        cases h
      | error e =>
        rw [recorded] at h
        obtain rfl := Except.error.inj h
        refine .inr ?_
        simp only [FileRecord.ofFile, bind, Except.bind] at recorded
        cases looked : p.fileExists path with
        | error e =>
          rw [looked] at recorded
          exact .inl (congrArg Except.error (Except.error.inj recorded))
        | ok there =>
          rw [looked] at recorded
          cases there with
          | false => cases recorded
          | true =>
            dsimp only [if_true] at recorded
            cases found : p.read path with
            | ok content =>
              rw [found] at recorded
              cases recorded
            | error e =>
              rw [found] at recorded
              exact .inr (congrArg Except.error (Except.error.inj recorded))
  · rw [if_neg state] at h
    obtain rfl := Except.error.inj h
    exact .inl ⟨.inl state, fun _ same => by cases same⟩

/-- Recording a file while files are made fails, or its path is one that no disk can deal with. -/
theorem record_error {kind path : String} {metadata : Json.Members} {now : Moment}
    (state : r.state = .reconciled) (known : r.manifest?.isSome = true)
    (h : r.record p kind path metadata now = .error cause) :
    FailsOrHinders p.root path cause := by
  rcases record_error_cases h with ⟨disorder | absent, -⟩ | looked | found
  · exact absurd state disorder
  · rw [absent] at known
    cases known
  · exact Project.failsOrHinders_of_fileExists looked
  · exact Project.read_error found

/-- While files are made, records can be dropped. -/
theorem forget_of_known (state : r.state = .reconciled) (known : r.manifest?.isSome = true)
    (path : String) : ∃ m count, r.forget path = .ok (count, { r with manifest? := some m }) := by
  obtain ⟨m, known⟩ := Option.isSome_iff_exists.1 known
  have manifest : r.manifest = .ok m := by rw [Reconciliation.manifest, known, Reconciliation.known]
  refine ⟨(m.remove path).2, (m.remove path).1, ?_⟩
  simp only [forget, expect, if_pos state, manifest, bind, Except.bind]
  rfl

end Reconciliation

namespace Emission

/-- The text with which a file is written. -/
def Renders (given : String) : Emission → Prop
  | .whole _ _ text _ => text = .ok given
  | .merged _ _ markers body fresh anchor indent =>
    given = fresh ∨ ∃ held, given = (Section.merge markers body anchor indent held).2
  | .migration _ text _ => text = .ok given

/-- The text of a file could not be rendered. -/
def Fails (error : NumeralError) : Emission → Prop
  | .whole _ _ text _ => text = .error error
  | .merged _ _ _ _ _ _ _ => False
  | .migration _ text _ => text = .error error

/-- The paths with which a run has to do when it attempts a file: its own, or for a migration those
that are there and the one that it is to get. -/
def Meets (now : Moment) (run : Run) : Emission → String → Prop
  | .whole _ path _ _, other => other = path
  | .merged _ path _ _ _ _ _, other => other = path
  | .migration suffix _ _, other =>
    (∃ existing, run.project.glob (Artifact.migrationPattern suffix) = .ok existing ∧
      other ∈ existing) ∨ ∃ moment, now.plusSeconds? run.migrations = some moment ∧
      other = Artifact.migrationPath moment suffix

/-- What ends a run when it attempts a file. -/
inductive Stops (now : Moment) (run : Run) (e : Emission) : Interruption → Prop where
  | outside (single : e.count = 0) (out : LeadsOut e.artifact) :
      Stops now run e (.failure ⟨.resolve, e.artifact, .outsideRoot⟩)
  | hindered {cause : Interruption} (path : String) (met : e.Meets now run path)
      (hinders : Hinders run.project.root path cause) :
      Stops now run e cause
  | calendar (one : e.count = 1)
      (late : now.plusSeconds? run.migrations = none) : Stops now run e .calendarEnds

end Emission

namespace Run

/-- Where a piece of a run leads: to a run of which something holds, or to an interruption. -/
def Ends (made : Run → Prop) (stopped : Interruption → Prop) : Outcome → Prop
  | (.ok (), after) => made after
  | (.error cause, _) => stopped cause

theorem Ends.mono {made more : Run → Prop} {stopped others : Interruption → Prop}
    {outcome : Outcome} (h : Ends made stopped outcome) (further : ∀ after, made after → more after)
    (among : ∀ cause, stopped cause → others cause) : Ends more others outcome := by
  obtain ⟨result, after⟩ := outcome
  cases result with
  | ok _ => exact further after h
  | error cause => exact among cause h

/-- A run that can record files. -/
structure IsReady (run : Run) : Prop where
  state : run.reconciliation.state = .reconciled
  known : run.reconciliation.manifest?.isSome = true

theorem IsReady.of_moved {touched : List String → Prop} {before after : Run}
    (ready : before.IsReady) (moved : Moved touched before after) : after.IsReady where
  state := by rw [moved.reconciliation, ready.state]
  known := by
    have same := congrArg Option.isSome moved.hash
    rwa [Option.isSome_map, Option.isSome_map, ready.known] at same

/-- A file was dealt with, or an operation on it has failed, and the report says so. -/
inductive Notes (kind path : String) (action : FileAction) (before after : Report) : Prop where
  | dealt (noted : after = before.addFile kind path action)
  | failed (f : IOFailure) (noted : after = before.addIOFailure kind path action f)

/-- A text was written to a file, or it could not be rendered, or an operation on the file has
failed, and the report says so. -/
inductive Writes (kind path : String) (action : FileAction) (text : Except NumeralError String)
    (before : Report) (after : Run) : Prop where
  | written (given : String) (rendered : text = .ok given)
      (stands : after.project.Stands path given.toUTF8)
      (noted : after.report = before.addFile kind path action)
  | unrendered (error : NumeralError) (fails : text = .error error)
      (noted : after.report = before.addRenderFailure kind path action error)
  | failed (f : IOFailure) (noted : after.report = before.addIOFailure kind path action f)

/-- What becomes of a file that a run attempts: it is written, or a merge keeps what is there, or
the report notes why not. -/
inductive Attempts (mode : Mode) (e : Emission) (before after : Run) : Prop where
  | written (path given : String) (action : FileAction) (tracked : e.Tracked path)
      (writes : action.writes = true) (renders : e.Renders given)
      (stands : after.project.Stands path given.toUTF8)
      (noted : after.report = before.report.addFile e.kind.name path action)
  | kept (results : List FileResult) (merges : mode = .merge) (nonempty : results ≠ [])
      (same : after.project = before.project)
      (skipped : ∀ r ∈ results, r.kind = e.kind.name ∧ e.Tracked r.path ∧ r.action = .skipped)
      (told : ∀ r ∈ results, ∀ error, r.error = some error → error ∈ after.report.ioErrors)
      (noted : after.report.files = before.report.files ++ results)
  | unrendered (path : String) (action : FileAction) (error : NumeralError)
      (tracked : e.Tracked path) (fails : e.Fails error)
      (noted : after.report = before.report.addRenderFailure e.kind.name path action error)
  | failed (path : String) (action : FileAction) (f : IOFailure)
      (about : e.Tracked path ∨ path = e.artifact)
      (noted : after.report = before.report.addIOFailure e.kind.name path action f)

variable {now : Moment} {mode : Mode} {run : Run} {kind : ArtifactKind} {path : String}
  {action : FileAction} {metadata : Json.Members}

theorem ends_record (ready : run.IsReady) (kind : ArtifactKind) (path : String)
    (action : FileAction) (metadata : Json.Members) :
    Ends (fun after => after.project = run.project ∧ after.migrations = run.migrations ∧
        Notes kind.name path action run.report after.report)
      (Hinders run.project.root path) (record now kind path action metadata run) := by
  unfold record
  cases recorded : run.reconciliation.record run.project kind.name path metadata now with
  | ok result => exact ⟨rfl, rfl, .dealt rfl⟩
  | error e =>
    rcases Reconciliation.record_error ready.state ready.known recorded with ⟨f, rfl⟩ | hinders
    · exact ⟨rfl, rfl, .failed f rfl⟩
    · obtain ⟨error, rfl⟩ := hinders.exists_disk
      exact hinders

theorem ends_store (ready : run.IsReady) (named : namesOf path ≠ []) (kind : ArtifactKind)
    (action : FileAction) (text : String) (metadata : Json.Members) :
    Ends (fun after => after.migrations = run.migrations ∧
      Writes kind.name path action (.ok text) run.report after)
      (Hinders run.project.root path) (store now kind path action text metadata run) := by
  have touched := run.project.touches_write path text.toUTF8
  rw [← Project.writeText] at touched
  unfold store
  cases written : run.project.writeText path text with
  | mk outcome project =>
    rw [written] at touched
    cases outcome with
    | error e =>
      have wrong : FailsOrHinders run.project.root path e :=
        Project.write_error (by rw [← Project.writeText, written])
      rcases wrong with ⟨f, rfl⟩ | hinders
      · exact ⟨rfl, .failed f rfl⟩
      · obtain ⟨error, rfl⟩ := hinders.exists_disk
        exact hinders
    | ok size =>
      have same : project = { run.project with disk := project.disk } := touched.same
      have root : project.root = run.project.root := by rw [same]
      have ready : ({ run with project } : Run).IsReady := ⟨ready.state, ready.known⟩
      refine (@ends_record now _ ready kind path action metadata).mono ?_ fun cause hinders =>
        root ▸ hinders
      rintro after ⟨same, migrations, noted⟩
      refine ⟨migrations, ?_⟩
      cases noted with
      | dealt noted => exact .written text rfl (same ▸ Project.stands_of_write named written) noted
      | failed f noted => exact .failed f noted

theorem ends_storeRendered (ready : run.IsReady) (named : namesOf path ≠ []) (kind : ArtifactKind)
    (action : FileAction) (text : Except NumeralError String) (metadata : Json.Members) :
    Ends (fun after => after.migrations = run.migrations ∧
      Writes kind.name path action text run.report after)
      (Hinders run.project.root path) (storeRendered now kind path action text metadata run) := by
  unfold storeRendered
  cases text with
  | ok given => exact ends_store ready named kind action given metadata
  | error e => exact ⟨rfl, .unrendered e rfl rfl⟩

/-- A file that was written, or not for a reason that the report notes, was attempted. -/
theorem Writes.attempts (e : Emission) {text : Except NumeralError String} {before after : Run}
    (h : Writes e.kind.name path action text before.report after) (tracked : e.Tracked path)
    (writes : action.writes = true) (renders : ∀ given, text = .ok given → e.Renders given)
    (fails : ∀ error, text = .error error → e.Fails error) :
    Attempts mode e before after := by
  cases h with
  | written given rendered stands noted =>
    exact .written path given action tracked writes (renders given rendered) stands noted
  | unrendered error failed noted =>
    exact .unrendered path action error tracked (fails error failed) noted
  | failed f noted => exact .failed path action f (.inl tracked) noted

theorem ends_emitWhole (ready : run.IsReady) (named : namesOf path ≠ []) (kind : ArtifactKind)
    (text : Except NumeralError String) (metadata : Json.Members) :
    Ends (fun after => after.migrations = run.migrations ∧
      Attempts mode (.whole kind path text metadata) run after)
      (Emission.Stops now run (.whole kind path text metadata))
      (emitWhole now mode kind path text metadata run) := by
  have made {action : FileAction} (writes : action.writes = true) :
      Ends (fun after => after.migrations = run.migrations ∧
        Attempts mode (.whole kind path text metadata) run after)
        (Emission.Stops now run (.whole kind path text metadata))
        (storeRendered now kind path action text metadata run) :=
    (ends_storeRendered ready named kind action text metadata).mono
      (fun _ stored => ⟨stored.1,
        Writes.attempts (.whole kind path text metadata) stored.2 rfl writes
          (fun _ => id) fun _ => id⟩)
      fun _ hinders => .hindered path rfl hinders
  unfold emitWhole
  split
  · rename_i cause looked
    rcases Project.fileExists_error looked with ⟨out, rfl⟩ | hinders
    · exact .outside rfl out
    · exact .hindered path rfl hinders
  · split
    · rename_i merges
      refine (ends_record ready kind path .skipped metadata).mono ?_ fun cause hinders =>
        .hindered path rfl hinders
      rintro after ⟨same, migrations, noted⟩
      refine ⟨migrations, ?_⟩
      cases noted with
      | dealt noted =>
        exact .kept [⟨kind.name, path, .skipped, none⟩] merges (List.cons_ne_nil _ _) same
          (by simp [Emission.kind, Emission.Tracked]) (by simp) (by rw [noted]; rfl)
      | failed f noted => exact .failed path .skipped f (.inl rfl) noted
    · exact made rfl
  · exact made rfl

theorem ends_emitMerged (ready : run.IsReady) (named : namesOf path ≠ []) (kind : ArtifactKind)
    (markers : Markers) (body : List String) (fresh : String) (anchor : Option String)
    (indent : String) :
    Ends (fun after => after.migrations = run.migrations ∧
      Attempts mode (.merged kind path markers body fresh anchor indent) run after)
      (Emission.Stops now run (.merged kind path markers body fresh anchor indent))
      (emitMerged now kind path markers body fresh anchor indent run) := by
  have made {action : FileAction} (writes : action.writes = true) (text : String)
      (renders : (Emission.merged kind path markers body fresh anchor indent).Renders text) :
      Ends (fun after => after.migrations = run.migrations ∧
          Attempts mode (.merged kind path markers body fresh anchor indent) run after)
        (Emission.Stops now run (.merged kind path markers body fresh anchor indent))
        (store now kind path action text [] run) := by
    refine (ends_store ready named kind action text []).mono (fun after stored => ⟨stored.1, ?_⟩)
      fun _ hinders => .hindered path rfl hinders
    refine Writes.attempts (.merged kind path markers body fresh anchor indent) stored.2 rfl writes
      ?_ fun error failed => ?_
    · rintro given ⟨⟩
      exact renders
    · cases failed
  unfold emitMerged
  split
  · rename_i cause looked
    rcases Project.fileExists_error looked with ⟨out, rfl⟩ | hinders
    · exact .outside rfl out
    · exact .hindered path rfl hinders
  · exact made rfl fresh (.inl rfl)
  · split
    · rename_i text _
      refine made ?_ _ (.inr ⟨text, rfl⟩)
      split <;> rfl
    · rename_i f _
      exact ⟨rfl, .failed path .merged f (.inl rfl) rfl⟩
    · rename_i cause hard reading
      exact .hindered path rfl ((Project.readText_error reading).hinders hard)

/-- A file that is kept adds its result to the report, and an error to those of operations. -/
theorem Notes.result {kind path : String} {before after : Report}
    (h : Notes kind path action before after) : ∃ result : FileResult,
    after.files = before.files ++ [result] ∧ result.kind = kind ∧ result.path = path ∧
      result.action = action ∧ (∀ error, result.error = some error → error ∈ after.ioErrors) ∧
      before.ioErrors <+: after.ioErrors := by
  cases h with
  | dealt noted =>
    rw [noted]
    exact ⟨_, rfl, rfl, rfl, rfl, nofun, List.prefix_rfl⟩
  | failed f noted =>
    rw [noted]
    refine ⟨_, rfl, rfl, rfl, rfl, fun error told => ?_, List.prefix_append ..⟩
    obtain rfl := Option.some.inj told
    exact List.mem_append_right _ (List.mem_cons_self ..)

/-- Keeping files notes each of them. -/
theorem ends_recordAll (ready : run.IsReady) (kind : ArtifactKind) (metadata : Json.Members)
    (paths : List String) :
    Ends (fun after => after.project = run.project ∧ after.migrations = run.migrations ∧
        run.report.ioErrors <+: after.report.ioErrors ∧ ∃ results : List FileResult,
        results.map (·.path) = paths ∧
          after.report.files = run.report.files ++ results ∧ ∀ r ∈ results, r.kind = kind.name ∧
          r.action = .skipped ∧
            ∀ error, r.error = some error → error ∈ after.report.ioErrors)
      (fun cause => ∃ path ∈ paths, Hinders run.project.root path cause)
        (recordAll now kind metadata paths run) := by
  induction paths generalizing run with
  | nil => exact ⟨rfl, rfl, List.prefix_rfl, [], rfl, by simp, by simp⟩
  | cons path rest ih =>
    have first := @ends_record now run ready kind path .skipped metadata
    have changes : Changes now (fun _ => False) (· = path) run
      (record now kind path .skipped metadata run).2 :=
      changes_record kind .skipped metadata rfl
    have moved := changes.moved
    unfold recordAll
    cases recorded : record now kind path .skipped metadata run with
    | mk outcome between =>
      rw [recorded] at first moved
      cases outcome with
      | error cause => exact ⟨path, List.mem_cons_self .., first⟩
      | ok _ =>
        obtain ⟨same, migrations, noted⟩ := first
        obtain ⟨result, files, isKind, isPath, isAction, told, errors⟩ := noted.result
        refine (ih (ready.of_moved moved)).mono ?_ ?_
        · rintro after ⟨same', migrations', errors', results, paths, files', all⟩
          refine ⟨same'.trans same, migrations'.trans migrations, errors.trans errors',
            result :: results,
            by rw [List.map_cons, isPath, paths], by rw [files', files, List.append_assoc]; rfl, ?_⟩
          rw [List.forall_mem_cons]
          exact ⟨⟨isKind, isAction, fun error isError => errors'.subset (told error isError)⟩, all⟩
        · rintro cause ⟨other, mem, hinders⟩
          exact ⟨other, List.mem_cons_of_mem _ mem, same ▸ hinders⟩

/-- Deleting files ends with all of them deleted, or with a failure that the report notes. -/
theorem deleteAll_cases (kind : ArtifactKind) (paths : List String) (run : Run) :
    (∃ after, deleteAll kind paths run = (.ok true, after) ∧
      after = { run with project := after.project } ∧
        after.project.root = run.project.root) ∨
      (∃ path ∈ paths, ∃ f after, deleteAll kind paths run = (.ok false, after) ∧
        after.migrations = run.migrations ∧
        after.report = run.report.addIOFailure kind.name path .deleted f) ∨
      ∃ path ∈ paths, ∃ cause after, deleteAll kind paths run = (.error cause, after) ∧
      Hinders run.project.root path cause := by
  induction paths generalizing run with
  | nil => exact .inl ⟨run, rfl, rfl, rfl⟩
  | cons path rest ih =>
    unfold deleteAll
    cases deleted : run.project.delete path with
    | ok result =>
      obtain ⟨found, project⟩ := result
      have root : project.root = run.project.root := by rw [(Project.touches_delete deleted).same]
      rcases ih { run with project } with ⟨after, eq, same, root'⟩ | ⟨other, mem, f, after, eq,
        migrations, noted⟩ | ⟨other, mem, cause, after, eq, hinders⟩
      · exact .inl ⟨after, eq, same, root'.trans root⟩
      · exact .inr (.inl ⟨other, List.mem_cons_of_mem _ mem, f, after, eq, migrations, noted⟩)
      · exact .inr (.inr ⟨other, List.mem_cons_of_mem _ mem, cause, after, eq, root ▸ hinders⟩)
    | error e =>
      rcases Project.delete_error deleted with ⟨f, rfl⟩ | hinders
      · exact .inr (.inl ⟨path, List.mem_cons_self .., f, _, rfl, rfl, rfl⟩)
      · obtain ⟨error, rfl⟩ := hinders.exists_disk
        exact .inr (.inr ⟨path, List.mem_cons_self .., _, _, rfl, hinders⟩)

theorem forgetAll_of_known {r : Reconciliation} (state : r.state = .reconciled)
    (known : r.manifest?.isSome = true) (paths : List String) :
    ∃ m, m.isSome = true ∧ forgetAll paths r = .ok { r with manifest? := m } := by
  induction paths generalizing r with
  | nil => exact ⟨r.manifest?, known, rfl⟩
  | cons path rest ih =>
    obtain ⟨m, count, forgotten⟩ := Reconciliation.forget_of_known state known path
    obtain ⟨left, filled, eq⟩ := ih (r := { r with manifest? := some m }) state rfl
    refine ⟨left, filled, ?_⟩
    simp only [forgetAll, forgotten, bind, Except.bind]
    exact eq

/-- A run that can record files can drop their records. -/
theorem forgetCovered_of_ready (ready : run.IsReady) (pattern : String) :
    ∃ reconciliation, forgetCovered pattern run = .ok { run with reconciliation } ∧
      ({ run with reconciliation } : Run).IsReady := by
  obtain ⟨m, known⟩ := Option.isSome_iff_exists.1 ready.known
  have manifest : run.reconciliation.manifest = .ok m := by
    rw [Reconciliation.manifest, known, Reconciliation.known]
  obtain ⟨left, filled, forgotten⟩ :=
    forgetAll_of_known ready.state ready.known (m.trackedPaths.filter (Pattern.covers pattern))
  refine ⟨{ run.reconciliation with manifest? := left }, ?_, ready.state, filled⟩
  simp only [forgetCovered, manifest, forgotten, bind, Except.bind, pure, Except.pure]

theorem ends_writeMigration {suffix : String} (ready : run.IsReady) (action : FileAction)
    (text : Except NumeralError String) (metadata : Json.Members) :
    Ends (fun after => after.migrations ≤ run.migrations + 1 ∧ ∃ moment,
        Writes ArtifactKind.migrations.name (Artifact.migrationPath moment suffix) action text
          run.report after)
      (fun cause => (cause = .calendarEnds ∧ now.plusSeconds? run.migrations = none) ∨ ∃ moment,
        now.plusSeconds? run.migrations = some moment ∧
        Hinders run.project.root (Artifact.migrationPath moment suffix) cause)
      (writeMigration now suffix action text metadata run) := by
  obtain ⟨reconciliation, forgotten, ready⟩ :=
    forgetCovered_of_ready ready (Artifact.migrationPattern suffix)
  unfold writeMigration
  rw [forgotten]
  dsimp only [nextMoment]
  cases next : now.plusSeconds? run.migrations with
  | none => exact .inl ⟨rfl, rfl⟩
  | some moment =>
    have named : namesOf (Artifact.migrationPath moment suffix) ≠ [] := by
      obtain ⟨rest, names⟩ := prefix_migrationPath moment suffix
      rw [← names]
      exact List.cons_ne_nil _ _
    have ready : ({ run with reconciliation, migrations := run.migrations + 1 } : Run).IsReady :=
      ⟨ready.state, ready.known⟩
    refine (ends_storeRendered ready named .migrations action text metadata).mono ?_
      fun cause hinders => .inr ⟨moment, rfl, hinders⟩
    rintro after ⟨migrations, stored⟩
    exact ⟨migrations.le, moment, stored⟩

theorem ends_emitMigration {suffix : String} (ready : run.IsReady)
    (text : Except NumeralError String) (metadata : Json.Members) :
    Ends (fun after => after.migrations ≤ run.migrations + 1 ∧
      Attempts mode (.migration suffix text metadata) run after)
      (Emission.Stops now run (.migration suffix text metadata))
      (emitMigration now mode suffix text metadata run) := by
  unfold emitMigration
  dsimp only
  split
  · rename_i f _
    exact ⟨Nat.le_succ _, .failed (Artifact.migrationPattern suffix) .created f (.inr rfl) rfl⟩
  · rename_i cause hard searched
    rcases Project.glob_error searched with ⟨f, -, rfl⟩ | ⟨wrong, spelled, whole, rfl⟩
    · exact absurd rfl (hard f)
    · exact absurd (Artifact.depthInName_of_migrationPattern spelled) whole
  · rename_i existing searched
    have isFound (path : String) (mem : path ∈ existing) :
      (Emission.migration suffix text metadata).Tracked path :=
      .found run.project existing searched mem
    split
    · rename_i merges
      simp only [Bool.and_eq_true, decide_eq_true_eq, Bool.not_eq_true',
        List.isEmpty_eq_false_iff] at merges
      refine (ends_recordAll ready .migrations metadata existing).mono ?_ ?_
      · rintro after ⟨same, migrations, -, results, paths, files, all⟩
        refine ⟨migrations.le.trans (Nat.le_succ _),
          .kept results merges.1 ?_ same (fun r mem => ?_)
          (fun r mem => (all r mem).2.2) files⟩
        · rintro rfl
          exact merges.2 paths.symm
        · exact ⟨(all r mem).1, isFound r.path (paths ▸ List.mem_map_of_mem mem), (all r mem).2.1⟩
      · rintro cause ⟨path, mem, hinders⟩
        exact .hindered path (.inl ⟨existing, searched, mem⟩) hinders
    · rcases deleteAll_cases .migrations existing run with ⟨cleared, eq, same, root⟩ | ⟨path, mem,
        f, after, eq, migrations, noted⟩ | ⟨path, mem, cause, after, eq, hinders⟩
      · have ready : cleared.IsReady := by
          rw [same]
          exact ⟨ready.state, ready.known⟩
        have migrations : cleared.migrations = run.migrations := by rw [same]
        have report : cleared.report = run.report := by rw [same]
        have writes :
        (if existing.isEmpty then FileAction.created else .overwritten).writes = true := by
          split <;> rfl
        simp only [eq]
        refine (ends_writeMigration ready _ text metadata).mono ?_ ?_
        · rintro after ⟨few, moment, stored⟩
          exact ⟨migrations ▸ few, Writes.attempts (.migration suffix text metadata)
            (report ▸ stored) (.named moment rfl) writes (fun _ => id) fun _ => id⟩
        · rintro cause (⟨rfl, late⟩ | ⟨moment, next, hinders⟩)
          · exact .calendar rfl (migrations ▸ late)
          · exact .hindered _ (.inr ⟨moment, migrations ▸ next, rfl⟩) (root ▸ hinders)
      · simp only [eq]
        exact ⟨migrations.le.trans (Nat.le_succ _),
          .failed path .deleted f (.inl (isFound path mem)) noted⟩
      · simp only [eq]
        exact .hindered path (.inl ⟨existing, searched, mem⟩) hinders

/-- Attempting a file, a run comes to its end or is stopped. -/
theorem ends_emit {e : Emission} (ready : run.IsReady)
    (named : ∀ names, e.Touched names → names ≠ []) :
    Ends (fun after => after.migrations ≤ run.migrations + e.count ∧ Attempts mode e run after)
      (e.Stops now run) (emit now mode run e) := by
  cases e with
  | whole kind path text metadata =>
    exact (ends_emitWhole ready (named _ rfl) kind text metadata).mono
      (fun _ made => ⟨made.1.le, made.2⟩) fun _ => id
  | merged kind path markers body fresh anchor indent =>
    exact (ends_emitMerged ready (named _ rfl) kind markers body fresh anchor indent).mono
      (fun _ made => ⟨made.1.le, made.2⟩) fun _ => id
  | migration suffix text metadata => exact ends_emitMigration ready text metadata

/-- Files are attempted one after another. -/
inductive AttemptsAll (mode : Mode) : List Emission → Run → Run → Prop where
  | nil (run : Run) : AttemptsAll mode [] run run
  | cons {e : Emission} {rest : List Emission} {before between after : Run}
      (first : Attempts mode e before between)
      (further : AttemptsAll mode rest between after) : AttemptsAll mode (e :: rest) before after

/-- Where a run is stopped among its files: at one of them, after it has come to the end of those
before it. -/
inductive StopsAmong (now : Moment) (mode : Mode) (emissions : List Emission) (run : Run)
    (cause : Interruption) : Prop where
  | intro (front : List Emission) (e : Emission) (back : List Emission) (before : Run)
      (split : emissions = front ++ e :: back)
      (reached : emitAll now mode front run = (.ok (), before))
      (root : before.project.root = run.project.root)
      (few : before.migrations ≤ run.migrations + (front.map (·.count)).sum)
      (stops : e.Stops now before cause)

/-- A run attempts all files, or one of them stops it. -/
theorem ends_emitAll {emissions : List Emission} (ready : run.IsReady)
    (named : ∀ e ∈ emissions, ∀ names, e.Touched names → names ≠ []) :
    Ends (AttemptsAll mode emissions run) (StopsAmong now mode emissions run)
      (emitAll now mode emissions run) := by
  induction emissions generalizing run with
  | nil => exact .nil run
  | cons e rest ih =>
    have first := @ends_emit now mode run e ready (named e (List.mem_cons_self ..))
    have moved := (@changes_emit now mode run e).moved
    unfold emitAll
    cases made : emit now mode run e with
    | mk outcome between =>
      rw [made] at first moved
      cases outcome with
      | error cause => exact .intro [] e rest run rfl rfl rfl (Nat.le_add_right ..) first
      | ok _ =>
        obtain ⟨few, attempted⟩ := first
        have moved : Moved e.Touched run between := moved
        have root : between.project.root = run.project.root := by rw [moved.project.same]
        refine (ih (ready.of_moved moved) fun e' mem =>
          named e' (List.mem_cons_of_mem _ mem)).mono ?_ ?_
        · exact fun after further => .cons attempted further
        · rintro cause ⟨front, stopping, back, before, rfl, reached, root', fewer, stops⟩
          refine .intro (e :: front) stopping back before rfl ?_ (root'.trans root) ?_ stops
          · rw [emitAll, made]
            exact reached
          · rw [List.map_cons, List.sum_cons]
            omega

/-- Where all files came to their end, each of them did. -/
theorem exists_emit_of_emitAll {emissions : List Emission} {after : Run} {e : Emission}
    (h : emitAll now mode emissions run = (.ok (), after)) (mem : e ∈ emissions) :
    ∃ before between, emit now mode before e = (.ok (), between) := by
  induction emissions generalizing run with
  | nil => exact absurd mem List.not_mem_nil
  | cons first rest ih =>
    unfold emitAll at h
    cases emitted : emit now mode run first with
    | mk outcome between =>
      rw [emitted] at h
      cases outcome with
      | error cause => cases (Prod.mk.inj h).1
      | ok _ =>
        rcases List.mem_cons.1 mem with rfl | mem
        · exact ⟨run, between, emitted⟩
        · exact ih h mem

/-- A file that is not named by a pattern ends the run where its path leads out of the project. -/
theorem emit_of_leadsOut {e : Emission} (single : e.count = 0) (out : LeadsOut e.artifact) :
    emit now mode run e = (.error (.failure ⟨.resolve, e.artifact, .outsideRoot⟩), run) := by
  cases e with
  | whole kind path text metadata =>
    have looked : run.project.fileExists path = .error (.failure ⟨.resolve, path, .outsideRoot⟩) :=
      Project.fileExists_of_leadsOut out
    change emitWhole now mode kind path text metadata run = _
    unfold emitWhole
    rw [looked]
    rfl
  | merged kind path markers body fresh anchor indent =>
    have looked : run.project.fileExists path = .error (.failure ⟨.resolve, path, .outsideRoot⟩) :=
      Project.fileExists_of_leadsOut out
    change emitMerged now kind path markers body fresh anchor indent run = _
    unfold emitMerged
    rw [looked]
    rfl
  | migration suffix text metadata => exact absurd single Nat.one_ne_zero

end Run
end Scaffold
