import Scaffold.Proofs.Generation.Emissions
import Scaffold.Proofs.Generation.Stamping
import Scaffold.Proofs.Generation.Stopping

/-!
# Runs that come to their end

A run that gets past its plan attempts every file and then the manifest, whatever fails
(`Generation.Completes`). `Generation.Obstructs` lists what can stop it before that, by what there
is in the schema, the project and the clock. The main statement is
`Generation.completes_or_obstructed`; `Generation.stopped_of_leadsOut` says that a file outside the
project stops every such run.
-/

namespace Scaffold
set_option autoImplicit false

namespace Run

/-- Files were attempted one after another, and then the step was noted. -/
inductive Attempted (mode : Mode) (emissions : List Emission) (after : Run) : Prop where
  | intro (ready made : Run) (success : Bool) (detail : String)
      (all : AttemptsAll mode emissions ready made)
      (noted : after = made.log (·.addStep "Code Generation" success detail))

variable {now : Moment} {options : Options} {s : Schema} {p : Project} {m : Manifest}
  {report : Report} {run : Run}

/-- The steps of a run between its plan and its files. -/
def prepare (options : Options) (s : Schema) (run : Run) : Outcome :=
  match cleanUp run with
  | (.error e, run) => (.error e, run)
  | (.ok (), run) =>
    match if options.writeEnv then updateEnvironment s run else (.ok (), run) with
    | (.error e, run) => (.error e, run)
    | (.ok (), run) =>
      (.ok (), run.log (·.addStep "Order Entities" true
        (toString s.dependencyOrder.length ++ " entities ordered")))

theorem makeFiles_eq (now : Moment) (options : Options) (s : Schema) (run : Run) :
    makeFiles now options s run = match prepare options s run with
      | (.error e, run) => (.error e, run)
      | (.ok (), run) =>
          generateFiles now options.mode (Emission.ofSchema s options s.dependencyOrder) run := by
  unfold makeFiles prepare
  cases cleanUp run with
  | mk outcome cleaned =>
    cases outcome with
    | error e => rfl
    | ok _ =>
      dsimp only
      cases (if options.writeEnv then updateEnvironment s cleaned else (.ok (), cleaned)) with
      | mk outcome ready => cases outcome <;> rfl

/-- A planned run cleans up and sets the environment, and has named no migrations then. -/
theorem ends_prepare (acts : options.mode ≠ .preview) :
    Ends (fun after => after.IsReady ∧ after.project.root = p.root ∧ after.migrations = 0)
      (fun cause => (options.mode = .clean ∧ ∃ path ∈ m.obsolete s, Cleanup.Stops p path cause) ∨
        ∃ path ∈ [envPath, envExamplePath], Hinders p.root path cause)
      (prepare options s (planned options s p m report)) := by
  have cleaned := @ends_cleanUp options s p m report acts
  unfold prepare
  cases cleaning : cleanUp (planned options s p m report) with
  | mk outcome between =>
    rw [cleaning] at cleaned
    cases outcome with
    | error cause => exact .inl cleaned
    | ok _ =>
      obtain ⟨ready, root, migrations⟩ := cleaned
      have set_ : Ends (fun after => after.reconciliation = between.reconciliation ∧
            after.project.root = between.project.root ∧ after.migrations = between.migrations)
          (fun cause => ∃ path ∈ [envPath, envExamplePath], Hinders between.project.root path cause)
          (if options.writeEnv then updateEnvironment s between else (.ok (), between)) := by
        split
        · exact ends_updateEnvironment s between
        · exact ⟨rfl, rfl, rfl⟩
      dsimp only
      cases setting :
          (if options.writeEnv then updateEnvironment s between else (.ok (), between)) with
      | mk outcome begun =>
        rw [setting] at set_
        cases outcome with
        | error cause =>
          obtain ⟨path, mem, hinders⟩ := set_
          exact .inr ⟨path, mem, root ▸ hinders⟩
        | ok _ =>
          obtain ⟨same, root', migrations'⟩ := set_
          exact ⟨⟨by rw [log, same, ready.state], by rw [log, same, ready.known]⟩, root'.trans root,
            migrations'.trans migrations⟩

/-- A run that is ready makes its files, or is stopped at one of them. -/
theorem ends_generateFiles (ready : run.IsReady) :
    Ends (fun after => after.IsReady ∧ after.project.root = run.project.root ∧
        Attempted options.mode (Emission.ofSchema s options s.dependencyOrder) after)
      (StopsAmong now options.mode (Emission.ofSchema s options s.dependencyOrder) run)
      (generateFiles now options.mode (Emission.ofSchema s options s.dependencyOrder) run) := by
  have named : ∀ e ∈ Emission.ofSchema s options s.dependencyOrder, ∀ names, e.Touched names →
      names ≠ [] := by
    intro e mem names touched
    obtain ⟨_, -, _, rfl⟩ := Emission.root_of_touched mem touched
    exact List.cons_ne_nil _ _
  have attempted := @ends_emitAll now options.mode run _ ready named
  have changes : Changes now (fun _ => True) (fun _ => True) run
      (emitAll now options.mode (Emission.ofSchema s options s.dependencyOrder) run).2 :=
    changes_emitAll (fun _ _ _ _ => trivial) fun _ _ _ _ => trivial
  have moved := changes.moved
  dsimp only [generateFiles]
  cases making : emitAll now options.mode (Emission.ofSchema s options s.dependencyOrder) run with
  | mk outcome made =>
    rw [making] at attempted moved
    cases outcome with
    | error cause => exact attempted
    | ok _ =>
      have moved : Moved (fun _ => True) run made := moved
      have same : made.project = { run.project with disk := made.project.disk } :=
        moved.project.same
      have ready := ready.of_moved moved
      have root : made.project.root = run.project.root := by rw [same]
      exact ⟨⟨ready.state, ready.known⟩, root, .intro run made _ _ attempted rfl⟩

/-- What stops a run between its plan and its last step: a tracked path, the environment, or a
file. -/
inductive StopsMaking (now : Moment) (options : Options) (s : Schema) (p : Project) (m : Manifest)
    (report : Report) : Interruption → Prop where
  | cleaning {cause : Interruption} (clean : options.mode = .clean) (path : String)
      (mem : path ∈ m.obsolete s)
      (stops : Cleanup.Stops p path cause) : StopsMaking now options s p m report cause
  | setting {cause : Interruption} (path : String) (mem : path ∈ [envPath, envExamplePath])
      (hinders : Hinders p.root path cause) : StopsMaking now options s p m report cause
  | making {cause : Interruption} (ready : Run)
      (prepared : prepare options s (planned options s p m report) = (.ok (), ready))
      (root : ready.project.root = p.root) (unnamed : ready.migrations = 0)
      (stops : StopsAmong now options.mode (Emission.ofSchema s options s.dependencyOrder)
        ready cause) :
      StopsMaking now options s p m report cause

theorem ends_makeFiles (acts : options.mode ≠ .preview) :
    Ends (fun after => after.IsReady ∧ after.project.root = p.root ∧
        Attempted options.mode (Emission.ofSchema s options s.dependencyOrder) after)
      (StopsMaking now options s p m report)
        (makeFiles now options s (planned options s p m report)) := by
  have prepared := @ends_prepare options s p m report acts
  rw [makeFiles_eq]
  cases preparing : prepare options s (planned options s p m report) with
  | mk outcome begun =>
    rw [preparing] at prepared
    cases outcome with
    | error cause =>
      rcases prepared with ⟨clean, path, mem, stops⟩ | ⟨path, mem, hinders⟩
      · exact .cleaning clean path mem stops
      · exact .setting path mem hinders
    | ok _ =>
      obtain ⟨ready, root, unnamed⟩ := prepared
      refine (ends_generateFiles ready).mono ?_ fun cause stops =>
        .making begun preparing root unnamed stops
      rintro after ⟨ready', root', attempted⟩
      exact ⟨ready', root'.trans root, attempted⟩

end Run

namespace Generation

/-- A run that gets past its plan: the schema is valid, the manifest can be loaded, and there is
something to do. -/
structure Acts (options : Options) (s : Schema) (p : Project) : Prop where
  valid : s.findings.isValid = true
  changes : options.mode ≠ .preview
  due : ∃ m, ({} : Store).load p = .ok m ∧ (m.differsFrom s = true ∨ options.force = true)

/-- A run has attempted all of its files and then to save the manifest, and its report says so. -/
inductive Completes (now : Moment) (options : Options) (s : Schema) (report : Report)
    (after : Project) : Prop where
  | intro (made saved : Run) (m : Manifest)
      (attempted : Run.Attempted options.mode (Emission.ofSchema s options s.dependencyOrder) made)
      (known : made.reconciliation.manifest? = some m)
      (saves : Run.Saves now (Run.toSave now s (Run.isClean made.report && options.only.isEmpty) m)
        (Run.isClean made.report && options.only.isEmpty) made saved)
      (reported : saved.report = report) (left : saved.project = after)

/-- What can stop a run: a manifest that cannot be read, a document that cannot be digested,
something on the way to the files or at one of them, or something on the way to the new manifest. -/
inductive Obstructs (now : Moment) (options : Options) (s : Schema) (p : Project) :
    Interruption → Prop where
  | unreadable (error : Text.NumeralError) (loads : ({} : Store).load p = .error (.numeral error)) :
      Obstructs now options s p (.numeral error)
  | unreachable {cause : Interruption}
      (hinders : Hinders p.root ({} : Store).manifestPath cause) : Obstructs now options s p cause
  | undigested (unprintable : (Json.object s.document).isPrintable = false) :
      Obstructs now options s p (.numeral .unwritable)
  | unmade {cause : Interruption} (m : Manifest) (begun : Report)
      (loads : ({} : Store).load p = .ok m)
      (stops : Run.StopsMaking now options s p m begun cause) : Obstructs now options s p cause
  | unsaved {cause : Interruption} (m tracked : Manifest) (begun : Report) (made : Run)
      (loads : ({} : Store).load p = .ok m)
      (making : Run.makeFiles now options s (Run.planned options s p m begun) = (.ok (), made))
      (known : made.reconciliation.manifest? = some tracked)
      (stops : Run.StopsSaving now (Run.toSave now s (Run.isClean made.report &&
        options.only.isEmpty) tracked) made.project cause) :
      Obstructs now options s p cause

variable {now : Moment} {options : Options} {s : Schema} {p : Project} {m : Manifest}
  {report : Report}

/-- From a plan a run goes to its end, or is stopped. -/
theorem ends_apply (acts : options.mode ≠ .preview) (loads : ({} : Store).load p = .ok m) :
    Run.Ends (fun run => Completes now options s run.report run.project) (Obstructs now options s p)
      (Run.apply now options s (Run.planned options s p m report)) := by
  have made := @Run.ends_makeFiles now options s p m report acts
  unfold Run.apply
  cases making : Run.makeFiles now options s (Run.planned options s p m report) with
  | mk outcome run =>
    rw [making] at made
    cases outcome with
    | error cause => exact .unmade m report loads made
    | ok _ =>
      obtain ⟨ready, root, attempted⟩ := made
      obtain ⟨-, -, schema, store, tracked, known, -⟩ := Run.spares_of_makeFiles making
      refine (@Run.ends_saveManifest now options s tracked run ready known schema store).mono ?_ ?_
      · exact fun after saves => .intro run after tracked attempted known saves rfl rfl
      · exact fun cause stops => .unsaved m tracked report run loads making known stops

/-- What a run comes to that need not get past its plan: it ends there with a report, or is stopped,
or is applied. -/
inductive Leaves (now : Moment) (options : Options) (s : Schema) (p : Project)
    (result : Except Stop Report × Project) : Prop where
  | idle (report : Report) (eq : result = (.ok report, p)) (rests : ¬ Acts options s p)
  | stopped (cause : Interruption) (eq : result = (.error (.interrupted cause), p))
      (obstructs : Obstructs now options s p cause)
  | applied (m : Manifest) (begun : Report) (loads : ({} : Store).load p = .ok m)
      (acts : options.mode ≠ .preview)
      (eq : result = ended (Run.apply now options s (Run.planned options s p m begun)))

/-- Of a valid schema and a loaded manifest it is told by the plan and the mode whether a run
acts. -/
theorem acts_iff (valid : s.findings.isValid = true) (loads : ({} : Store).load p = .ok m) :
    Acts options s p ↔ options.mode ≠ .preview ∧ (!m.differsFrom s && !options.force) = false := by
  constructor
  · intro acts
    obtain ⟨found, loads', due⟩ := acts.due
    obtain rfl := Except.ok.inj (loads.symm.trans loads')
    exact ⟨acts.changes, by rcases due with due | due <;> simp [due]⟩
  · rintro ⟨changes, due⟩
    refine ⟨valid, changes, m, loads, ?_⟩
    cases differs : m.differsFrom s with
    | true => exact .inl rfl
    | false => exact .inr (by simpa [differs] using due)

theorem leaves_generate (now : Moment) (options : Options) (s : Schema) (p : Project) :
    Leaves now options s p (generate now options false s p) := by
  cases valid : s.findings.isValid with
  | false =>
    refine .idle (reportFindings s.findings { emptyReport options p with project := s.project }) ?_
      fun acts => ?_
    · simp only [generate, continueWith, valid, Bool.not_false, if_true,
        Bool.false_eq_true, if_false]
    · cases valid.symm.trans acts.valid
  | true =>
    cases loads : ({} : Store).load p with
    | ok m =>
      rw [generate, continueWith_eq _ valid loads]
      split
      · unfold decided
        split
        · rename_i preview
          exact .idle _ rfl fun acts => acts.changes preview
        · rename_i changes
          split
          · rename_i same
            refine .idle _ rfl fun acts => ?_
            cases ((acts_iff valid loads).1 acts).2.symm.trans same
          · exact .applied m _ loads changes rfl
      · rename_i unprintable
        exact .stopped _ rfl (.undigested (by simpa using unprintable))
    | error cause =>
      have rests : ¬ Acts options s p := fun acts => by
        obtain ⟨m, loads', -⟩ := acts.due
        cases (loads.symm.trans loads')
      simp only [generate, continueWith, valid, Reconciliation.load_new, loads, Except.map,
        Bool.not_true, Bool.false_eq_true, if_false]
      rcases Store.load_error loads with ⟨path, corruption,
        rfl⟩ | (⟨f, rfl⟩ | hinders) | ⟨error, rfl⟩
      · exact .idle _ rfl rests
      · exact .idle _ rfl rests
      · obtain ⟨error, rfl⟩ := hinders.exists_disk
        exact .stopped _ rfl (.unreachable hinders)
      · exact .stopped _ rfl (.unreadable error loads)

/-- A run gives a report, in which every file and the manifest were attempted if it gets past its
plan, or it is stopped by a thing that is there to stop it. -/
theorem completes_or_obstructed (now : Moment) (options : Options) (s : Schema) (p : Project) :
    (∃ report after, generate now options false s p = (.ok report, after) ∧
      (Acts options s p → Completes now options s report after)) ∨
    ∃ cause after, generate now options false s p = (.error (.interrupted cause), after) ∧
      Obstructs now options s p cause := by
  cases leaves_generate now options s p with
  | idle report eq rests => exact .inl ⟨report, p, eq, fun acts => absurd acts rests⟩
  | stopped cause eq obstructs => exact .inr ⟨cause, p, eq, obstructs⟩
  | applied m begun loads acts eq =>
    have ends := @ends_apply now options s p m begun acts loads
    cases applied : Run.apply now options s (Run.planned options s p m begun) with
    | mk outcome run =>
      rw [applied] at eq ends
      cases outcome with
      | ok _ => exact .inl ⟨_, _, eq, fun _ => ends⟩
      | error cause => exact .inr ⟨cause, _, eq, ends⟩

/-- A file at a path that leads out of the project stops every run that gets as far. -/
theorem stopped_of_leadsOut {e : Emission} (acts : Acts options s p)
    (mem : e ∈ Emission.ofSchema s options s.dependencyOrder)
    (single : e.count = 0) (out : LeadsOut e.artifact) :
    ∃ cause after, generate now options false s p = (.error (.interrupted cause), after) := by
  cases leaves_generate now options s p with
  | idle report eq rests => exact absurd acts rests
  | stopped cause eq obstructs => exact ⟨cause, p, eq⟩
  | applied m begun loads changes eq =>
    cases applied : Run.apply now options s (Run.planned options s p m begun) with
    | mk outcome run =>
      rw [applied] at eq
      cases outcome with
      | error cause => exact ⟨cause, _, eq⟩
      | ok _ =>
        unfold Run.apply at applied
        cases making : Run.makeFiles now options s (Run.planned options s p m begun) with
        | mk outcome after =>
          rw [making] at applied
          cases outcome with
          | error cause => cases (Prod.mk.inj applied).1
          | ok _ =>
            obtain ⟨-, -, ready, made, -, -, -, -, -, -, -, -, -, all, -⟩ :=
              Run.makeFiles_eq_ok making
            obtain ⟨before, between, emitted⟩ := Run.exists_emit_of_emitAll all mem
            rw [Run.emit_of_leadsOut single out] at emitted
            cases (Prod.mk.inj emitted).1

/-- The document of a schema of one model, whose name leads out of the directory of the models and
of the project. -/
def outsideDocument : Json.Members :=
  let part : Json :=
    .object [("table", .string "xs"), ("fields", .object [("label", .string "string")])]
  [("meta", .object []), ("models", .object [("../X", part)])]

/-- The schema is valid, it differs from what a new project was made from, and its model would lie
outside. -/
theorem checked_outsideDocument :
    succeeds (Schema.build outsideDocument) (fun s => s.findings.isValid &&
      succeeds (({} : Store).load newProject) (fun m => m.differsFrom s) &&
      (Emission.ofSchema s {} s.dependencyOrder).any fun e => e.count == 0 &&
        decide (LeadsOut e.artifact)) = true := by
  decide +kernel

/-- Not every run gives a report. -/
theorem outside_model_stops : ¬ ∀ (document : Json.Members) (s : Schema) (now : Moment)
    (options : Options) (p : Project), Schema.build document = .ok s →
      ∃ report after, generate now options false s p = (.ok report, after) := by
  intro claimed
  obtain ⟨s, built, holds⟩ := succeeds_eq_true.1 checked_outsideDocument
  simp only [Bool.and_eq_true, List.any_eq_true, beq_iff_eq, decide_eq_true_eq] at holds
  obtain ⟨⟨valid, due⟩, e, mem, single, out⟩ := holds
  obtain ⟨m, loads, differs⟩ := succeeds_eq_true.1 due
  have acts : Acts {} s newProject := ⟨valid, by decide, m, loads, .inl differs⟩
  obtain ⟨report, after, ran⟩ := claimed outsideDocument s noon {} newProject built
  obtain ⟨cause, after', stopped⟩ := @stopped_of_leadsOut noon {} s newProject e acts mem single out
  cases (Prod.mk.inj (ran.symm.trans stopped)).1

end Generation
end Scaffold
