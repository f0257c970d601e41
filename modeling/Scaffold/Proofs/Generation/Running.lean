import Scaffold.Proofs.Generation.Opening
import Scaffold.Proofs.Generation.Saving
import Scaffold.Proofs.Manifest.Succeeding

/-!
# The steps of a run

A run that gets past its plan cleans up, sets the environment, makes the files and saves the
manifest. The statements here take such a run apart: `Generation.applied_of_runs` finds the plan
with which it set out, and `Run.makeFiles_eq_ok` what its steps before the last have done.
-/

namespace Scaffold
set_option autoImplicit false

namespace Run

/-- Noting files and failures of a cleanup goes on from a report, which stays clean only without
failures. -/
theorem extends_reportCleanup (m : Manifest) (mode : Mode) (c : Cleanup) (report : Report) :
    report.Extends (reportCleanup m mode c report) ∧
    (isClean (reportCleanup m mode c report) = true → c.failures = []) := by
  have deleted : ∀ (paths : List String) (r : Report), r.Extends (paths.foldl (fun r path =>
      r.addFile ((kindOf? m path).getD ArtifactKind.migrations.name) path .deleted) r) := by
    intro paths
    induction paths with
    | nil => exact Report.Extends.refl
    | cons path rest ih => exact fun r => (Report.extends_addFile _ _ _).trans (ih _)
  have failed : ∀ (failures : List IOFailure) (r : Report), r.Extends (failures.foldl (fun r f =>
      r.addIOFailure ((kindOf? m f.path).getD "obsolete") f.path .deleted f) r) := by
    intro failures
    induction failures with
    | nil => exact Report.Extends.refl
    | cons f rest ih => exact fun r => (Report.extends_addIOFailure _ _ _ _).trans (ih _)
  refine ⟨((deleted c.deleted report).trans (failed c.failures _)).trans
    (Report.extends_addStep _ _ _), fun clean => ?_⟩
  cases failures : c.failures with
  | nil => rfl
  | cons f rest =>
    have noted := clean
    rw [reportCleanup, Report.isClean_addStep, failures, List.foldl_cons] at noted
    have first := (failed rest _).clean noted
    rw [Report.isClean_addIOFailure] at first
    exact absurd first Bool.false_ne_true

/-- What the cleanup of a run leaves. -/
structure CleanedUp (before after : Run) : Prop where
  project : Project.Shrinks before.project after.project
  reconciliation : after.reconciliation =
    { before.reconciliation with manifest? := after.reconciliation.manifest?, state := .reconciled }
  report : before.report.Extends after.report

variable {now : Moment} {options : Options} {s : Schema} {p : Project} {m : Manifest}
  {report : Report} {after : Run}

/-- The cleanup of a planned run: files and records may go, the digest stays, and in a clean run
without failures nothing that is tracked is obsolete. -/
theorem cleanUp_eq_ok (h : cleanUp (planned options s p m report) = (.ok (), after)) :
    CleanedUp (planned options s p m report) after ∧
    ∃ left, after.reconciliation.manifest? = some left ∧
      left.schemaHash = m.schemaHash ∧ (∀ r ∈ left.records, r ∈ m.records) ∧
      (options.mode = .merge → left = m) ∧
      (options.mode = .clean → isClean after.report = true → left.obsolete s = []) := by
  have known : (planned options s p m report).reconciliation.manifest = .ok m := rfl
  unfold cleanUp at h
  rw [known] at h
  cases modes : options.mode with
  | preview =>
    simp [planned, modes, Reconciliation.reconcile, Reconciliation.expect,
      Reconciliation.refuse] at h
  | merge =>
    simp only [planned, modes, Reconciliation.reconcile, Reconciliation.expect, if_true] at h
    obtain ⟨-, rfl⟩ := Prod.mk.inj h
    exact ⟨⟨.refl _, by simp [planned, modes, log], (extends_reportCleanup _ _ _ _).1⟩, m, rfl, rfl,
      fun _ => id, fun _ => rfl, (fun clean => by cases clean)⟩
  | clean =>
    simp only [planned, modes, Reconciliation.reconcile, Reconciliation.expect,
      if_true, Plan.of] at h
    by_cases empty : (m.obsolete s).isEmpty = true
    · simp only [if_pos empty] at h
      obtain ⟨-, rfl⟩ := Prod.mk.inj h
      exact ⟨⟨.refl _, by simp [planned, modes, log, Plan.of], (extends_reportCleanup _ _ _ _).1⟩,
        m, rfl, rfl, fun _ => id, fun _ => rfl, fun _ _ => List.isEmpty_iff.1 empty⟩
    · simp only [if_neg empty] at h
      obtain ⟨shrinks, hash, records⟩ := m.shrinks_cleanup s p
      have obsolete :
        ∀ c, (m.cleanup s p).1 = .ok c → c.failures = [] → (m.cleanup s p).2.1.obsolete s = [] :=
        fun c done clean => Manifest.obsolete_cleanup done clean
      cases cleaning : m.cleanup s p with
      | mk outcome left =>
        rw [cleaning] at h shrinks hash records obsolete
        cases outcome with
        | error e => cases (Prod.mk.inj h).1
        | ok c =>
          obtain ⟨-, rfl⟩ := Prod.mk.inj h
          refine ⟨⟨shrinks, by
            simp [planned, modes, log, Plan.of], (extends_reportCleanup _ _ _ _).1⟩, left.1, rfl,
            hash, records, (fun merges => by cases merges), fun _ clean => ?_⟩
          exact obsolete c rfl ((extends_reportCleanup _ _ _ _).2 clean)

/-- Whether or not it comes to its end, the cleanup only takes files away, and in a merge run
none. -/
theorem shrinks_cleanUp (options : Options) (s : Schema) (p : Project) (m : Manifest)
    (report : Report) : Project.Shrinks p (cleanUp (planned options s p m report)).2.project ∧
      (options.mode = .merge → (cleanUp (planned options s p m report)).2.project = p) := by
  have known : (planned options s p m report).reconciliation.manifest = .ok m := rfl
  have reconciled :
      Project.Shrinks p ((planned options s p m report).reconciliation.reconcile p).2.2 ∧
      (options.mode = .merge →
        ((planned options s p m report).reconciliation.reconcile p).2.2 = p) := by
    simp only [planned, Reconciliation.reconcile, Reconciliation.expect, if_true]
    cases options.mode with
    | preview => exact ⟨.refl p, fun _ => rfl⟩
    | merge => exact ⟨.refl p, fun _ => rfl⟩
    | clean =>
      refine ⟨?_, fun merges => by cases merges⟩
      dsimp only
      split
      · exact .refl p
      · have shrinks := (m.shrinks_cleanup s p).1
        cases cleaning : m.cleanup s p with
        | mk outcome left =>
          rw [cleaning] at shrinks
          cases outcome <;> exact shrinks
  unfold cleanUp
  rw [known]
  dsimp only
  cases reconciling : (planned options s p m report).reconciliation.reconcile
      (planned options s p m report).project with
  | mk outcome left =>
    have eq :
      (planned options s p m report).reconciliation.reconcile p = (outcome, left) := reconciling
    rw [eq] at reconciled
    cases outcome <;> exact reconciled

/-- Setting the environment touches its file only. -/
theorem moved_updateEnvironment (s : Schema) (run : Run) :
    Moved (· = namesOf envPath) run (updateEnvironment s run).2 := by
  have changed : Project.Touches (· = namesOf envPath) run.project
      (writeEnv (Environment.ofSchema s) run.project).2 := by
    unfold writeEnv
    cases envText run.project with
    | error e => exact .refl _ _
    | ok text =>
      have written :=
        run.project.touches_write envPath (Environment.update text (Environment.ofSchema s)).toUTF8
      rw [← Project.writeText] at written
      dsimp only
      cases writing :
          run.project.writeText envPath (Environment.update text (Environment.ofSchema s)) with
      | mk outcome p =>
        rw [writing] at written
        cases outcome <;> exact written
  unfold updateEnvironment
  dsimp only
  split
  · exact .refl _ run
  · cases written : writeEnv (Environment.ofSchema s) run.project with
    | mk outcome p =>
      rw [written] at changed
      cases outcome with
      | ok _ => exact ⟨changed, rfl, rfl, Report.extends_addStep _ _ _⟩
      | error e =>
        cases e with
        | failure f =>
            exact ⟨changed, rfl, rfl, ⟨rfl, rfl, rfl, rfl, List.prefix_rfl, fun clean => by
              simp [isClean, Report.addStep, log] at clean⟩⟩
        | _ => exact ⟨changed, rfl, rfl, .refl _⟩

theorem reconciliation_updateEnvironment (s : Schema) (run : Run) :
    (updateEnvironment s run).2.reconciliation = run.reconciliation := by
  unfold updateEnvironment
  dsimp only
  split
  · rfl
  · split <;> rfl

theorem migrations_updateEnvironment (s : Schema) (run : Run) :
    (updateEnvironment s run).2.migrations = run.migrations := by
  unfold updateEnvironment
  dsimp only
  split
  · rfl
  · split <;> rfl

theorem migrations_cleanUp (run : Run) : (cleanUp run).2.migrations = run.migrations := by
  unfold cleanUp
  split
  · rfl
  · split <;> rfl

/-- What the steps of a run up to the last do to its project, whether or not they come to their end:
files go, the environment is set, and files are made. -/
theorem project_makeFiles (now : Moment) (options : Options) (s : Schema) (p : Project)
    (m : Manifest) (report : Report) :
    ∃ cleaned ready, Project.Shrinks p cleaned ∧ (options.mode = .merge → cleaned = p) ∧
      Project.Touches (· = namesOf envPath) cleaned ready ∧
      ((makeFiles now options s (planned options s p m report)).2.project = ready ∨
        ∃ run : Run, run.project = ready ∧
        (makeFiles now options s (planned options s p m report)).2.project =
          (emitAll now options.mode (Emission.ofSchema s options s.dependencyOrder)
            run).2.project) := by
  obtain ⟨shrinks, kept⟩ := shrinks_cleanUp options s p m report
  unfold makeFiles
  cases cleaning : cleanUp (planned options s p m report) with
  | mk outcome cleaned =>
    rw [cleaning] at shrinks kept
    cases outcome with
    | error e => exact ⟨cleaned.project, cleaned.project, shrinks, kept, .refl _ _, .inl rfl⟩
    | ok _ =>
      have setting : ∃ outcome ready,
          (if options.writeEnv then updateEnvironment s cleaned else (.ok (), cleaned)) =
          (outcome, ready) ∧ Project.Touches (· = namesOf envPath) cleaned.project
            ready.project := by
        split
        · exact ⟨_, _, rfl, (moved_updateEnvironment s cleaned).project⟩
        · exact ⟨_, _, rfl, .refl _ _⟩
      obtain ⟨outcome, ready, eq, changed⟩ := setting
      dsimp only
      rw [eq]
      refine ⟨cleaned.project, ready.project, shrinks, kept, changed, ?_⟩
      cases outcome with
      | error e => exact .inl rfl
      | ok _ =>
        refine .inr ⟨ready.log (·.addStep "Order Entities" true
          (toString s.dependencyOrder.length ++ " entities ordered")), rfl, ?_⟩
        dsimp only [generateFiles]
        split
        · rename_i made
          rw [made]
          rfl
        · rfl

/-- The steps of a run up to the last: what is obsolete goes, the environment is set, and the files
are made. -/
theorem makeFiles_eq_ok
    (h : makeFiles now options s (planned options s p m report) = (.ok (), after)) :
    ∃ cleaned left ready made, CleanedUp (planned options s p m report) cleaned ∧
      cleaned.reconciliation.manifest? = some left ∧ left.schemaHash = m.schemaHash ∧
      (∀ r ∈ left.records, r ∈ m.records) ∧ (options.mode = .merge → left = m) ∧
      (options.mode = .clean → isClean cleaned.report = true → left.obsolete s = []) ∧
      Moved (· = namesOf envPath) cleaned ready ∧ ready.reconciliation = cleaned.reconciliation ∧
      ready.migrations = 0 ∧ emitAll now options.mode
        (Emission.ofSchema s options s.dependencyOrder) ready = (.ok (), made) ∧
      after.project = made.project ∧ after.reconciliation = made.reconciliation ∧
      made.report.Extends after.report := by
  unfold makeFiles at h
  cases cleaning : cleanUp (planned options s p m report) with
  | mk outcome cleaned =>
    rw [cleaning] at h
    cases outcome with
    | error e => cases (Prod.mk.inj h).1
    | ok _ =>
      obtain ⟨cleanedUp, left, known, hash, records, kept, absent⟩ := cleanUp_eq_ok cleaning
      have unnamed : cleaned.migrations = 0 := by
        have counted := migrations_cleanUp (planned options s p m report)
        rwa [cleaning] at counted
      have setting : ∃ outcome ready,
          (if options.writeEnv then updateEnvironment s cleaned else (.ok (), cleaned)) =
          (outcome, ready) ∧ Moved (· = namesOf envPath) cleaned ready ∧
          ready.reconciliation = cleaned.reconciliation ∧ ready.migrations = 0 := by
        split
        · exact ⟨_, _, rfl, moved_updateEnvironment s cleaned,
            reconciliation_updateEnvironment s cleaned,
            (migrations_updateEnvironment s cleaned).trans unnamed⟩
        · exact ⟨_, _, rfl, .refl _ _, rfl, unnamed⟩
      obtain ⟨outcome, ready, eq, moved, same, fresh⟩ := setting
      dsimp only at h
      rw [eq] at h
      cases outcome with
      | error e => cases (Prod.mk.inj h).1
      | ok _ =>
        have ordered : Moved (· = namesOf envPath) ready (ready.log (·.addStep "Order Entities" true
            (toString s.dependencyOrder.length ++ " entities ordered"))) :=
          ⟨.refl _ _, rfl, rfl, Report.extends_addStep _ _ _⟩
        dsimp only [generateFiles] at h
        cases making : emitAll now options.mode (Emission.ofSchema s options s.dependencyOrder)
            (ready.log (·.addStep "Order Entities" true
              (toString s.dependencyOrder.length ++ " entities ordered"))) with
        | mk outcome made =>
          rw [making] at h
          cases outcome with
          | error e => cases (Prod.mk.inj h).1
          | ok _ =>
            obtain ⟨-, rfl⟩ := Prod.mk.inj h
            exact ⟨cleaned, left, _, made, cleanedUp, known, hash, records, kept, absent,
              moved.trans ordered, same, fresh, making, rfl, rfl,
              Report.extends_addStep _ _ _⟩

end Run

namespace Generation

/-- A run from a schema, or from the file that holds it, ends with a report. -/
inductive Runs (now : Moment) (options : Options) (s : Schema) (p : Project) (report : Report)
    (after : Project) : Prop where
  | ofSchema (strict : Bool) (ran : generate now options strict s p = (.ok report, after))
  | ofFile (path : Path) (loaded : Schema.load p.disk path = .ok s)
      (ran : generateFromFile now options path p = (.ok report, after))

variable {now : Moment} {options : Options} {s : Schema} {p after : Project} {report : Report}

/-- What a run that goes on from a report without errors does when it gets past its plan. -/
theorem applied_of_continueWith {strict : Bool} {start : Report} (acts : options.mode ≠ .preview)
    (plain : IsPlain start) (unplanned : start.plan = none)
    (h : continueWith now options strict s p start = (.ok report, after))
    (planned : report.plan ≠ none) (past : report.unchanged = false) :
    (s.findings.isValid = true ∧ (Json.object s.document).isPrintable = true) ∧
      ∃ m begun run, ({} : Store).load p = .ok m ∧ begun.inputErrors = [] ∧
      begun.validationErrors = [] ∧
        Run.apply now options s (Run.planned options s p m begun) = (.ok (), run) ∧
        run.report = report ∧ run.project = after := by
  cases opens_continueWith h with
  | stopped cause eq => cases (Prod.mk.inj eq).1
  | refused refusal eq fails same =>
    obtain rfl := Except.ok.inj (Prod.mk.inj eq).1
    exact absurd (same.trans unplanned) planned
  | planned m valid loads printable eq =>
    have begins : IsPlain (begun options s m start) := plain.begun valid
    rcases decided_eq_ok acts eq.symm with ⟨-, -, rfl, -⟩ | ⟨run, applied, rfl, rfl⟩
    · simp at past
    · exact ⟨⟨valid, printable⟩, m, _, run, loads, begins.noInput, begins.noErrors,
        applied, rfl, rfl⟩

/-- A run that gets past its plan has loaded a manifest and is applied to the project. -/
theorem applied_of_runs (acts : options.mode ≠ .preview) (ran : Runs now options s p report after)
    (planned : report.plan ≠ none) (past : report.unchanged = false) :
    (s.findings.isValid = true ∧ (Json.object s.document).isPrintable = true) ∧
      ∃ m begun run, ({} : Store).load p = .ok m ∧ begun.inputErrors = [] ∧
      begun.validationErrors = [] ∧
        Run.apply now options s (Run.planned options s p m begun) = (.ok (), run) ∧
        run.report = report ∧ run.project = after := by
  cases ran with
  | ofSchema strict ran => exact applied_of_continueWith acts ⟨rfl, rfl, rfl⟩ rfl ran planned past
  | ofFile path loaded ran =>
    simp only [generateFromFile, loaded] at ran
    exact applied_of_continueWith acts ⟨rfl, rfl, rfl⟩ rfl ran planned past

end Generation
end Scaffold
