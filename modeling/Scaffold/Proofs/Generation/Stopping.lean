import Scaffold.Proofs.Generation.Attempting
import Scaffold.Proofs.Generation.Running
import Scaffold.Proofs.Manifest.RoundTrip

/-!
# What stops the steps of a run

Loading the manifest, cleaning up, setting the environment and saving: each step fails, and the run
goes on, unless it comes to a path that no disk can deal with, to a tracked path that is no pattern,
or to a number that cannot be written. The statements say so for each piece, from the store to the
steps of a run.
-/

namespace Scaffold
set_option autoImplicit false

namespace Cleanup

/-- The files that a cleanup takes a tracked path of a project for: the one there, or with a pattern
those that are found when others may be gone. -/
def Targets (p : Project) (path file : String) : Prop :=
  file = path ∨ ∃ q files, Project.Shrinks p q ∧ q.glob path = .ok files ∧ file ∈ files

/-- What ends a cleanup at a tracked path: a pattern that cannot be searched for, or a file that no
disk can deal with. -/
inductive Stops (p : Project) (path : String) : Interruption → Prop where
  | pattern (wrong : Glob.Invalid) (more : Pattern.isPattern path = true)
      (spelled : Glob.ofText path = .error wrong) :
      Stops p path (.pattern wrong)
  | hindered {cause : Interruption} (file : String) (target : Targets p path file)
      (hinders : Hinders p.root file cause) : Stops p path cause

variable {required : List String} {g : Progress} {cause : Interruption}

theorem deleteFiles_error {files : List String} (h : (deleteFiles files g).1 = .error cause) :
    ∃ file ∈ files, Hinders g.project.root file cause := by
  induction files generalizing g with
  | nil => cases h
  | cons file rest ih =>
    have further {g' : Progress} (root : g'.project.root = g.project.root)
        (h : (deleteFiles rest g').1 = .error cause) :
        ∃ other ∈ file :: rest, Hinders g.project.root other cause := by
      obtain ⟨other, mem, hinders⟩ := ih h
      exact ⟨other, List.mem_cons_of_mem _ mem, root ▸ hinders⟩
    unfold deleteFiles at h
    split at h
    · rename_i project deleted
      exact further (by rw [(Project.touches_delete deleted).same]) h
    · rename_i project deleted
      exact further (by rw [(Project.touches_delete deleted).same]) h
    · rename_i f _
      cases others : deleteFiles rest
          { g with report := { g.report with failures := g.report.failures ++ [f] } } with
      | mk outcome after =>
        rw [others] at h
        cases outcome with
        | ok _ => cases h
        | error e =>
          obtain rfl := Except.error.inj h
          refine @further { g with
            report := { g.report with failures := g.report.failures ++ [f] } } rfl ?_
          rw [others]
    · rename_i e hard deleted
      obtain rfl := Except.error.inj h
      exact ⟨file, List.mem_cons_self .., (Project.delete_error deleted).hinders hard⟩

theorem cleanPath_error {path : String} (h : (cleanPath required path g).1 = .error cause) :
    Stops g.project path cause := by
  unfold cleanPath at h
  split at h
  · cases h
  · rename_i e hard expanded
    obtain rfl := Except.error.inj h
    unfold targets at expanded
    split at expanded
    · rename_i more
      rcases Project.glob_error (map_eq_error.1 expanded) with ⟨f, -, rfl⟩ | ⟨wrong,
        spelled, -, rfl⟩
      · exact absurd rfl (hard f)
      · exact .pattern wrong more spelled
    · cases expanded
  · rename_i files expanded
    have isTarget (file : String) (mem : file ∈ files) : Targets g.project path file := by
      unfold targets at expanded
      split at expanded
      · obtain ⟨found, searched, rfl⟩ := map_eq_ok.1 expanded
        exact .inr ⟨g.project, found, .refl _, searched, (List.mem_filter.1 mem).1⟩
      · obtain rfl := Except.ok.inj expanded
        exact .inl (List.mem_singleton.1 mem)
    cases deletion : deleteFiles files g with
    | mk outcome after =>
      rw [deletion] at h
      cases outcome with
      | ok all => cases all <;> cases h
      | error e =>
        obtain rfl := Except.error.inj h
        obtain ⟨file, mem, hinders⟩ := @deleteFiles_error g _ files (by rw [deletion])
        exact .hindered file (isTarget file mem) hinders

theorem Stops.of_shrinks {p q : Project} {path : String} (h : Stops q path cause)
    (shrinks : Project.Shrinks p q) : Stops p path cause := by
  cases h with
  | pattern wrong more spelled => exact .pattern wrong more spelled
  | hindered file target hinders =>
    have same : q = { p with disk := q.disk } := shrinks.same
    have root : q.root = p.root := by rw [same]
    refine .hindered file (target.imp_right ?_) (root ▸ hinders)
    rintro ⟨r, files, further, searched, mem⟩
    exact ⟨r, files, shrinks.trans further, searched, mem⟩

/-- A cleanup ends early only at one of its paths. -/
theorem cleanPaths_error {paths : List String}
    (h : (cleanPaths required paths g).1 = .error cause) :
    ∃ path ∈ paths, Stops g.project path cause := by
  induction paths generalizing g with
  | nil => cases h
  | cons path rest ih =>
    have follows := (@follows_cleanPath required g path).1
    unfold cleanPaths at h
    cases cleaned : cleanPath required path g with
    | mk outcome between =>
      rw [cleaned] at h follows
      cases outcome with
      | error e =>
        obtain rfl := Except.error.inj h
        exact ⟨path, List.mem_cons_self .., @cleanPath_error required g _ path (by rw [cleaned])⟩
      | ok _ =>
        obtain ⟨other, mem, stops⟩ := ih h
        exact ⟨other, List.mem_cons_of_mem _ mem, stops.of_shrinks follows.project⟩

end Cleanup

namespace Store

variable {m : Manifest} {p : Project} {cause : Interruption}

/-- A manifest that is not loaded is corrupt, or its file could not be dealt with, or it holds a
number with too many digits. -/
theorem load_error (h : ({} : Store).load p = .error cause) :
    (∃ path corruption, cause = .corrupt path corruption) ∨
    FailsOrHinders p.root ({} : Store).manifestPath cause ∨
      ∃ error, cause = .numeral error := by
  simp only [load, bind, Except.bind] at h
  cases looked : p.fileExists ({} : Store).manifestPath with
  | error e =>
    rw [looked] at h
    obtain rfl := Except.error.inj h
    exact .inr (.inl (Project.failsOrHinders_of_fileExists looked))
  | ok there =>
    rw [looked] at h
    cases there with
    | false => cases h
    | true =>
      dsimp only at h
      rw [if_pos rfl] at h
      cases found : p.read ({} : Store).manifestPath with
      | error e =>
        rw [found] at h
        obtain rfl := Except.error.inj h
        exact .inr (.inl (Project.read_error found))
      | ok content =>
        rw [found] at h
        dsimp only at h
        split at h
        · rename_i members _
          cases read : Manifest.ofMembers members with
          | ok m =>
            rw [read] at h
            cases h
          | error count =>
            rw [read] at h
            exact .inl ⟨_, _, (Except.error.inj h).symm⟩
        · exact .inr (.inr ⟨_, (Except.error.inj h).symm⟩)
        · exact .inl ⟨_, _, (Except.error.inj h).symm⟩

theorem save_error (h : (({} : Store).save m p).1 = .error cause) :
    (m.recount.toJson.isPrintable = false ∧ cause = .numeral .unwritable) ∨
      FailsOrHinders p.root ({} : Store).manifestPath cause := by
  unfold save at h
  split at h
  · rename_i e refused
    obtain rfl := Except.error.inj h
    unfold printed at refused
    split at refused
    · cases refused
    · rename_i unprintable
      exact .inl ⟨by simpa using unprintable, (Except.error.inj refused).symm⟩
  · rename_i text _
    cases written : p.writeText ({} : Store).manifestPath text with
    | mk outcome after =>
      rw [written] at h
      cases outcome with
      | ok size => cases h
      | error e =>
        obtain rfl := Except.error.inj h
        exact .inr (Project.write_error (by rw [← Project.writeText, written]))

theorem firstFree_error {paths : List String} (h : firstFree p paths = .error cause) :
    ∃ path ∈ paths, FailsOrHinders p.root path cause := by
  induction paths with
  | nil => cases h
  | cons path rest ih =>
    simp only [firstFree, bind, Except.bind] at h
    cases looked : p.fileExists path with
    | error e =>
      rw [looked] at h
      obtain rfl := Except.error.inj h
      exact ⟨path, List.mem_cons_self .., Project.failsOrHinders_of_fileExists looked⟩
    | ok there =>
      rw [looked] at h
      cases there with
      | false => cases h
      | true =>
        obtain ⟨other, mem, wrong⟩ := ih h
        exact ⟨other, List.mem_cons_of_mem _ mem, wrong⟩

theorem deleteAll_error {paths : List String} (h : (deleteAll paths p).1 = .error cause) :
    ∃ path ∈ paths, FailsOrHinders p.root path cause := by
  induction paths generalizing p with
  | nil => cases h
  | cons path rest ih =>
    unfold deleteAll at h
    split at h
    · rename_i project deleted
      obtain ⟨other, mem, wrong⟩ := ih h
      have root : project.root = p.root := by rw [(Project.touches_delete deleted).same]
      exact ⟨other, List.mem_cons_of_mem _ mem, root ▸ wrong⟩
    · rename_i e deleted
      obtain rfl := Except.error.inj h
      exact ⟨path, List.mem_cons_self .., Project.delete_error deleted⟩

theorem historyFiles_error (h : ({} : Store).historyFiles p = .error cause) :
    FailsOrHinders p.root ({} : Store).historyDirectory cause := by
  simp only [historyFiles, bind, Except.bind] at h
  cases looked : p.isDirectory ({} : Store).historyDirectory with
  | error e =>
    rw [looked] at h
    obtain rfl := Except.error.inj h
    exact Project.failsOrHinders_of_isDirectory looked
  | ok there =>
    rw [looked] at h
    cases there with
    | false => cases h
    | true =>
      rcases Project.glob_error h with ⟨f, -, failed⟩ | ⟨wrong, spelled, -, -⟩
      · exact .inl ⟨f, failed⟩
      · have searchable : succeeds (Glob.ofText (({} : Store).historyDirectory ++ "/*.json"))
          (fun _ => true) = true := by decide
        rw [spelled] at searchable
        cases searchable

theorem pruneHistory_error (h : (({} : Store).pruneHistory p).1 = .error cause) :
    ∃ path, (path = ({} : Store).historyDirectory ∨
      ∃ files, ({} : Store).historyFiles p = .ok files ∧ path ∈ files) ∧
      FailsOrHinders p.root path cause := by
  unfold pruneHistory at h
  split at h
  · rename_i e searched
    obtain rfl := Except.error.inj h
    exact ⟨_, .inl rfl, historyFiles_error searched⟩
  · rename_i files searched
    dsimp only at h
    cases deletion : deleteAll (files.take (({} : Store).excess files.length)) p with
    | mk outcome after =>
      rw [deletion] at h
      cases outcome with
      | ok _ => cases h
      | error e =>
        obtain rfl := Except.error.inj h
        obtain ⟨path, mem, wrong⟩ := deleteAll_error (p := p) (by rw [deletion])
        exact ⟨path, .inr ⟨files, searched, List.mem_of_mem_take mem⟩, wrong⟩

/-- A project with a directory for the history. -/
def withHistory (p : Project) : Project := (p.makeDirectory ({} : Store).historyDirectory).2

/-- The paths that a manifest can get in the history. -/
def entryPaths (m : Manifest) (now : Moment) (p : Project) : List String :=
  ({} : Store).historyPaths (historyStem m now) ((withHistory p).disk.entries.length + 1)

/-- The paths with which saving to the history has to do: the directory, those that the entry can
get, and the files that are there with the entry. -/
inductive Meets (m : Manifest) (now : Moment) (p : Project) (path : String) : Prop where
  | directory (eq : path = ({} : Store).historyDirectory)
  | candidate (mem : path ∈ entryPaths m now p)
  | none (taken : firstFree (withHistory p) (entryPaths m now p) = .ok .none) (eq : path = "")
  | entry (free : Option String) (files : List String)
      (chosen : firstFree (withHistory p) (entryPaths m now p) = .ok free)
      (found : ({} : Store).historyFiles
        ((withHistory p).writeText (free.getD "") (historyEntry m now).indented).2 = .ok files)
      (mem : path ∈ files)

theorem saveToHistory_error {now : Moment} (printable : m.toJson.isPrintable = true)
    (h : (({} : Store).saveToHistory m now p).1 = .error cause) :
    ∃ path, Meets m now p path ∧ FailsOrHinders p.root path cause := by
  have made := p.touches_makeDirectory ({} : Store).historyDirectory
  unfold saveToHistory at h
  cases directory : p.makeDirectory ({} : Store).historyDirectory with
  | mk outcome p₁ =>
    rw [directory] at h made
    have same : p₁ = { p with disk := p₁.disk } := made.same
    have root : p₁.root = p.root := by rw [same]
    have here : withHistory p = p₁ := by rw [withHistory, directory]
    cases outcome with
    | error e =>
      obtain rfl := Except.error.inj h
      have wrong : FailsOrHinders p.root ({} : Store).historyDirectory e :=
        Project.makeDirectory_error (by rw [directory])
      exact ⟨_, .directory rfl, wrong⟩
    | ok _ =>
      have paths : entryPaths m now p = ({} : Store).historyPaths (historyStem m now)
          (p₁.disk.entries.length + 1) := by
        rw [entryPaths, here]
      dsimp only at h
      split at h
      · rename_i e searched
        obtain rfl := Except.error.inj h
        obtain ⟨path, mem, wrong⟩ := firstFree_error searched
        exact ⟨path, .candidate (paths ▸ mem), root ▸ wrong⟩
      · rename_i free chosen
        rw [printed_eq_ok.2 ⟨isPrintable_historyEntry printable, rfl⟩] at h
        rw [← paths, ← here] at chosen
        dsimp only at h
        have written := p₁.touches_write (free.getD "") (historyEntry m now).indented.toUTF8
        rw [← Project.writeText] at written
        cases writing : p₁.writeText (free.getD "") (historyEntry m now).indented with
        | mk outcome p₂ =>
          rw [writing] at h written
          cases outcome with
          | error e =>
            obtain rfl := Except.error.inj h
            have wrong : FailsOrHinders p₁.root (free.getD "") e :=
              Project.write_error (by rw [← Project.writeText, writing])
            refine ⟨_, ?_, root ▸ wrong⟩
            cases free with
            | none => exact .none chosen rfl
            | some path => exact .candidate (free_of_firstFree chosen).1
          | ok size =>
            have same' : p₂ = { p₁ with disk := p₂.disk } := written.same
            have root' : p₂.root = p.root := by rw [same', root]
            cases pruning : ({} : Store).pruneHistory p₂ with
            | mk outcome p₃ =>
              simp only [pruning] at h
              cases outcome with
              | ok _ => cases h
              | error e =>
                obtain rfl := Except.error.inj h
                obtain ⟨path, met, wrong⟩ := pruneHistory_error (p := p₂) (by rw [pruning])
                refine ⟨path, ?_, root' ▸ wrong⟩
                rcases met with rfl | ⟨files, found, mem⟩
                · exact .directory rfl
                · exact .entry free files chosen (by rw [here, writing]; exact found) mem

end Store

namespace Run

variable {now : Moment} {options : Options} {s : Schema} {p : Project} {m : Manifest}
  {report : Report} {run : Run}

/-- The cleanup of a planned run. -/
theorem ends_cleanUp (acts : options.mode ≠ .preview) :
    Ends (fun after => after.IsReady ∧ after.project.root = p.root ∧ after.migrations = 0)
      (fun cause => options.mode = .clean ∧ ∃ path ∈ m.obsolete s, Cleanup.Stops p path cause)
      (cleanUp (planned options s p m report)) := by
  have migrations := migrations_cleanUp (planned options s p m report)
  cases cleaning : cleanUp (planned options s p m report) with
  | mk outcome after =>
    rw [cleaning] at migrations
    cases outcome with
    | ok _ =>
      obtain ⟨cleanedUp, left, known, -⟩ := cleanUp_eq_ok cleaning
      have same : after.project = { p with disk := after.project.disk } := cleanedUp.project.same
      refine ⟨⟨by rw [cleanedUp.reconciliation], by rw [known]; rfl⟩, by rw [same], migrations⟩
    | error cause =>
      have known : (planned options s p m report).reconciliation.manifest = .ok m := rfl
      unfold cleanUp at cleaning
      rw [known] at cleaning
      cases modes : options.mode with
      | preview => exact absurd modes acts
      | merge =>
        simp only [planned, modes, Reconciliation.reconcile, Reconciliation.expect,
          if_true] at cleaning
        cases (Prod.mk.inj cleaning).1
      | clean =>
        simp only [planned, modes, Reconciliation.reconcile, Reconciliation.expect, if_true,
          Plan.of] at cleaning
        by_cases empty : (m.obsolete s).isEmpty = true
        · simp only [if_pos empty] at cleaning
          cases (Prod.mk.inj cleaning).1
        · simp only [if_neg empty] at cleaning
          unfold Manifest.cleanup at cleaning
          cases cleaned : Cleanup.cleanPaths s.requiredArtifacts (m.obsolete s) ⟨{}, m, p⟩ with
          | mk result g =>
            simp only [cleaned] at cleaning
            cases result with
            | ok _ => cases (Prod.mk.inj cleaning).1
            | error e =>
              obtain rfl := Except.error.inj (Prod.mk.inj cleaning).1
              exact ⟨rfl, @Cleanup.cleanPaths_error s.requiredArtifacts ⟨{}, m, p⟩ _ _
                (by rw [cleaned])⟩

theorem writeEnv_error {values : Environment.Values} {cause : Interruption}
    (h : (writeEnv values p).1 = .error cause) :
    ∃ path ∈ [envPath, envExamplePath], FailsOrHinders p.root path cause := by
  have own : envPath ∈ [envPath, envExamplePath] := List.mem_cons_self ..
  have example_ : envExamplePath ∈ [envPath, envExamplePath] :=
    List.mem_cons_of_mem _ (List.mem_cons_self ..)
  unfold writeEnv at h
  cases found : envText p with
  | error e =>
    rw [found] at h
    obtain rfl := Except.error.inj h
    simp only [envText, bind, Except.bind] at found
    split at found
    · rename_i looked
      obtain rfl := Except.error.inj found
      exact ⟨_, own, Project.failsOrHinders_of_fileExists looked⟩
    · split at found
      · exact ⟨_, own, Project.readText_error found⟩
      · split at found
        · rename_i looked
          obtain rfl := Except.error.inj found
          exact ⟨_, example_, Project.failsOrHinders_of_fileExists looked⟩
        · split at found
          · exact ⟨_, example_, Project.readText_error found⟩
          · cases found
  | ok text =>
    rw [found] at h
    dsimp only at h
    cases written : p.writeText envPath (Environment.update text values) with
    | mk outcome after =>
      rw [written] at h
      cases outcome with
      | ok size => cases h
      | error e =>
        obtain rfl := Except.error.inj h
        exact ⟨_, own, Project.write_error (by rw [← Project.writeText, written])⟩

/-- Setting the environment. -/
theorem ends_updateEnvironment (s : Schema) (run : Run) :
    Ends (fun after => after.reconciliation = run.reconciliation ∧
      after.project.root = run.project.root ∧
        after.migrations = run.migrations)
      (fun cause => ∃ path ∈ [envPath, envExamplePath], Hinders run.project.root path cause)
        (updateEnvironment s run) := by
  have reconciliation := reconciliation_updateEnvironment s run
  have migrations := migrations_updateEnvironment s run
  have same := (moved_updateEnvironment s run).project.same
  cases setting : updateEnvironment s run with
  | mk outcome after =>
    rw [setting] at reconciliation migrations same
    cases outcome with
    | ok _ =>
      have same : after.project = { run.project with disk := after.project.disk } := same
      exact ⟨reconciliation, by rw [same], migrations⟩
    | error cause =>
      unfold updateEnvironment at setting
      dsimp only at setting
      split at setting
      · cases (Prod.mk.inj setting).1
      · cases written : writeEnv (Environment.ofSchema s) run.project with
        | mk outcome project =>
          have wrong {e : Interruption} (eq : outcome = .error e) :
              ∃ path ∈ [envPath, envExamplePath], FailsOrHinders run.project.root path e :=
            @writeEnv_error run.project (Environment.ofSchema s) _ (by rw [written, eq])
          rw [written] at setting
          cases outcome with
          | ok _ => cases (Prod.mk.inj setting).1
          | error e =>
            obtain ⟨path, mem, ⟨f, rfl⟩ | hinders⟩ := wrong rfl
            · cases (Prod.mk.inj setting).1
            · obtain ⟨error, rfl⟩ := hinders.exists_disk
              obtain rfl := Except.error.inj (Prod.mk.inj setting).1
              exact ⟨path, mem, hinders⟩

/-- What ends a run when it saves a manifest: a number that cannot be written, or a path that no
disk can deal with. -/
inductive StopsSaving (now : Moment) (m : Manifest) (p : Project) : Interruption → Prop where
  | unprintable (unprintable : m.toJson.isPrintable = false) :
      StopsSaving now m p (.numeral .unwritable)
  | manifest {cause : Interruption}
      (hinders : Hinders p.root ({} : Store).manifestPath cause) : StopsSaving now m p cause
  | history {cause : Interruption} (saved : Project)
      (done : ({} : Store).save m p = (.ok (), saved)) (path : String)
      (met : Store.Meets m now saved path)
      (hinders : Hinders p.root path cause) : StopsSaving now m p cause

/-- Saving the manifest of a run that can record files. -/
theorem ends_saveManifest (ready : run.IsReady) (known : run.reconciliation.manifest? = some m)
    (schema : run.reconciliation.schema? = some s) (store : run.reconciliation.store = {}) :
    Ends (Saves now (toSave now s (isClean run.report && options.only.isEmpty) m)
      (isClean run.report && options.only.isEmpty) run)
      (StopsSaving now (toSave now s (isClean run.report && options.only.isEmpty) m) run.project)
      (saveManifest now options run) := by
  cases saving : saveManifest now options run with
  | mk outcome after =>
    cases outcome with
    | ok _ => exact saves_of_saveManifest known schema store saving
    | error cause =>
      have failed {e : Interruption} {r' : Reconciliation} {left : Project}
          (eq : run.reconciliation.commit (isClean run.report && options.only.isEmpty) now
            run.project = (.error e, r', left)) :
          e = cause ∧ ∀ f, e ≠ .failure f := by
        unfold saveManifest at saving
        simp only [eq] at saving
        split at saving
        · rename_i same
          cases same
        · cases (Prod.mk.inj saving).1
        · rename_i hard same
          cases same
          exact ⟨Except.error.inj (Prod.mk.inj saving).1, hard⟩
      rcases commit_cases known schema store (isClean run.report && options.only.isEmpty) now
          run.project with
        ⟨busy, -⟩ | ⟨e, r', left, refused, eq⟩ | ⟨saved, done,
          ⟨-, e, r', left, refused, eq⟩ | ⟨entry, r', left, eq, -⟩⟩
      · exact absurd ready.state busy
      · obtain ⟨rfl, hard⟩ := failed eq
        rcases Store.save_error (by rw [refused]) with ⟨unprintable, rfl⟩ | wrong
        · exact .unprintable unprintable
        · exact .manifest (wrong.hinders hard)
      · obtain ⟨rfl, hard⟩ := failed eq
        have touched :=
          Store.touches_save ({} : Store)
            (toSave now s (isClean run.report && options.only.isEmpty) m) run.project
        rw [done] at touched
        have same : saved = { run.project with disk := saved.disk } := touched.same
        have root : saved.root = run.project.root := by rw [same]
        have saves :
            (({} : Store).save (toSave now s (isClean run.report && options.only.isEmpty) m)
              run.project).1 = .ok () := by
          rw [done]
        have printable : (toSave now s (isClean run.report && options.only.isEmpty)
          m).toJson.isPrintable = true :=
          (Store.save_eq_ok.1 saves).1
        obtain ⟨path, met, wrong⟩ := Store.saveToHistory_error printable (by rw [refused])
        exact .history saved done path met (root ▸ wrong.hinders hard)
      · unfold saveManifest at saving
        simp only [eq] at saving
        cases (Prod.mk.inj saving).1

end Run
end Scaffold
