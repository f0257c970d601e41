import Scaffold.Generation
import Scaffold.Proofs.Project.Confining

/-!
# Runs stay within their project

All that a run does to the disk it does through the operations of the project:
`Generation.works_generate` and `Generation.works_generateFromFile`. So no names in a schema and no
paths in a manifest make it create, change or delete a file elsewhere: `Generation.confined_run`.
The work of a reconciliation, which cleans up, saves the manifest and keeps its history, comes
first.
-/

namespace Scaffold
set_option autoImplicit false

open Project (Works)

namespace Cleanup

theorem works_deleteFiles (files : List String) (g : Progress) :
    Works g.project (deleteFiles files g).2.project := by
  induction files generalizing g with
  | nil => exact .refl
  | cons file rest ih =>
    unfold deleteFiles
    split
    · rename_i project deleted
      exact (Project.works_delete deleted).trans
        (ih { g with project, report := { g.report with deleted := g.report.deleted ++ [file] } })
    · rename_i project deleted
      exact (Project.works_delete deleted).trans
        (ih { g with project, report := { g.report with missing := g.report.missing ++ [file] } })
    · rename_i f _
      have others := ih { g with report := { g.report with failures := g.report.failures ++ [f] } }
      split <;> rename_i eq <;> rw [eq] at others <;> exact others
    · exact .refl

theorem works_cleanPath (required : List String) (path : String) (g : Progress) :
    Works g.project (cleanPath required path g).2.project := by
  unfold cleanPath
  split
  · exact .refl
  · exact .refl
  · rename_i files _
    have deleted := works_deleteFiles files g
    split <;> rename_i eq <;> rw [eq] at deleted <;> exact deleted

theorem works_cleanPaths (required paths : List String) (g : Progress) :
    Works g.project (cleanPaths required paths g).2.project := by
  induction paths generalizing g with
  | nil => exact .refl
  | cons path rest ih =>
    have first := works_cleanPath required path g
    unfold cleanPaths
    split <;> rename_i eq <;> rw [eq] at first
    · exact first.trans (ih _)
    · exact first

end Cleanup

theorem Manifest.works_cleanup (m : Manifest) (s : Schema) (p : Project) :
    Works p (m.cleanup s p).2.2 := by
  have cleaned := Cleanup.works_cleanPaths s.requiredArtifacts (m.obsolete s) ⟨{}, m, p⟩
  unfold cleanup
  split <;> rename_i eq <;> rw [eq] at cleaned <;> exact cleaned

namespace Store

variable {store : Store} {p : Project}

theorem works_save (store : Store) (m : Manifest) (p : Project) : Works p (store.save m p).2 := by
  unfold save
  split
  · exact .refl
  · rename_i text _
    have written := p.works_writeText store.manifestPath text
    split <;> rename_i eq <;> rw [eq] at written <;> exact written

theorem works_deleteAll (paths : List String) (p : Project) : Works p (deleteAll paths p).2 := by
  induction paths generalizing p with
  | nil => exact .refl
  | cons path rest ih =>
    unfold deleteAll
    split
    · rename_i deleted
      exact (Project.works_delete deleted).trans (ih _)
    · exact .refl

theorem works_pruneHistory (store : Store) (p : Project) : Works p (store.pruneHistory p).2 := by
  unfold pruneHistory
  split
  · exact .refl
  · rename_i files _
    have deleted := works_deleteAll (files.take (store.excess files.length)) p
    dsimp only
    split <;> rename_i eq <;> rw [eq] at deleted <;> exact deleted

theorem works_saveToHistory (store : Store) (m : Manifest) (now : Moment) (p : Project) :
    Works p (store.saveToHistory m now p).2 := by
  have made : Works p (p.makeDirectory store.historyDirectory).2 :=
    .single (.madeDirectory store.historyDirectory)
  unfold saveToHistory
  split <;> rename_i directory <;> rw [directory] at made
  · exact made
  · rename_i between
    dsimp only
    split
    · exact made
    · rename_i free _
      split
      · exact made
      · rename_i text _
        have written := made.trans (between.works_writeText (free.getD "") text)
        split <;> rename_i entry <;> rw [entry] at written
        · exact written
        · rename_i after
          have pruned := written.trans (store.works_pruneHistory after)
          split <;> rename_i old <;> rw [old] at pruned <;> exact pruned

end Store

namespace Reconciliation

theorem works_reconcile (r : Reconciliation) (p : Project) : Works p (r.reconcile p).2.2 := by
  unfold reconcile
  split
  · exact .refl
  · exact .refl
  · rename_i m s plan _ _ _ _ _
    split
    · exact .refl
    · have cleaned := m.works_cleanup s p
      split <;> rename_i eq <;> rw [eq] at cleaned <;> exact cleaned
  · exact .refl

theorem works_commit (r : Reconciliation) (stamp : Bool) (now : Moment) (p : Project) :
    Works p (r.commit stamp now p).2.2 := by
  unfold commit
  split
  · exact .refl
  · rename_i m _
    have saved := r.store.works_save m.recount p
    dsimp only
    split <;> rename_i saving <;> rw [saving] at saved
    · exact saved
    · rename_i between
      split
      · have entered := saved.trans (r.store.works_saveToHistory m.recount now between)
        split <;> rename_i entering <;> rw [entering] at entered <;> exact entered
      · exact saved

end Reconciliation

namespace Run

variable {now : Moment} {mode : Mode} {run : Run}

/-- Recording a file only looks at the disk. -/
theorem project_record (kind : ArtifactKind) (path : String) (action : FileAction)
    (metadata : Json.Members) :
    (record now kind path action metadata run).2.project = run.project := by
  unfold record
  split <;> rfl

theorem works_store (kind : ArtifactKind) (path : String) (action : FileAction) (text : String)
    (metadata : Json.Members) :
    Works run.project (store now kind path action text metadata run).2.project := by
  have written := run.project.works_writeText path text
  unfold store
  split <;> rename_i eq <;> rw [eq] at written
  · rw [project_record]
    exact written
  · exact written
  · exact written

theorem works_storeRendered (kind : ArtifactKind) (path : String) (action : FileAction)
    (text : Except Text.NumeralError String) (metadata : Json.Members) :
    Works run.project (storeRendered now kind path action text metadata run).2.project := by
  unfold storeRendered
  split
  · exact works_store kind path action _ metadata
  · exact .refl

theorem works_emitWhole (kind : ArtifactKind) (path : String)
    (text : Except Text.NumeralError String) (metadata : Json.Members) :
    Works run.project (emitWhole now mode kind path text metadata run).2.project := by
  unfold emitWhole
  split
  · exact .refl
  · split
    · rw [project_record]
    · exact works_storeRendered kind path .overwritten text metadata
  · exact works_storeRendered kind path .created text metadata

theorem works_emitMerged (kind : ArtifactKind) (path : String) (markers : Markers)
    (body : List String) (fresh : String) (anchor : Option String) (indent : String) :
    Works run.project (emitMerged now kind path markers body fresh anchor indent
      run).2.project := by
  unfold emitMerged
  split
  · exact .refl
  · exact works_store kind path .created fresh []
  · split
    · exact works_store kind path _ _ []
    · exact .refl
    · exact .refl

theorem project_recordAll (kind : ArtifactKind) (metadata : Json.Members)
    (paths : List String) (run : Run) :
    (recordAll now kind metadata paths run).2.project = run.project := by
  induction paths generalizing run with
  | nil => rfl
  | cons path rest ih =>
    have first := @project_record now run kind path .skipped metadata
    unfold recordAll
    split
    · rename_i eq
      rw [eq] at first
      rw [ih, first]
    · exact first

theorem works_deleteAll (kind : ArtifactKind) (paths : List String) (run : Run) :
    Works run.project (deleteAll kind paths run).2.project := by
  induction paths generalizing run with
  | nil => exact .refl
  | cons path rest ih =>
    unfold deleteAll
    split
    · rename_i project deleted
      exact (Project.works_delete deleted).trans (ih { run with project })
    · exact .refl
    · exact .refl

theorem project_forgetCovered {pattern : String} {after : Run}
    (h : forgetCovered pattern run = .ok after) :
    after.project = run.project := by
  obtain ⟨m, -, h⟩ := bind_eq_ok.1 h
  obtain ⟨reconciliation, -, h⟩ := bind_eq_ok.1 h
  rw [← Except.ok.inj h]

theorem works_writeMigration (suffix : String) (action : FileAction)
    (text : Except Text.NumeralError String) (metadata : Json.Members) :
    Works run.project (writeMigration now suffix action text metadata run).2.project := by
  unfold writeMigration
  split
  · exact .refl
  · rename_i forgot forgotten
    rw [← project_forgetCovered forgotten]
    split
    · exact .refl
    · exact @works_storeRendered now { forgot with migrations := forgot.migrations + 1 } .migrations
        _ action text metadata

theorem works_emitMigration (suffix : String) (text : Except Text.NumeralError String)
    (metadata : Json.Members) :
    Works run.project (emitMigration now mode suffix text metadata run).2.project := by
  unfold emitMigration
  dsimp only
  split
  · exact .refl
  · exact .refl
  · rename_i existing _
    split
    · rw [project_recordAll]
    · have deleted := works_deleteAll .migrations existing run
      split <;> rename_i eq <;> rw [eq] at deleted
      · exact deleted
      · exact deleted
      · exact deleted.trans (works_writeMigration suffix _ text metadata)

theorem works_emit (emission : Emission) :
    Works run.project (emit now mode run emission).2.project := by
  cases emission with
  | whole kind path text metadata => exact works_emitWhole kind path text metadata
  | merged kind path markers body fresh anchor indent =>
    exact works_emitMerged kind path markers body fresh anchor indent
  | migration suffix text metadata => exact works_emitMigration suffix text metadata

theorem works_emitAll (emissions : List Emission) (run : Run) :
    Works run.project (emitAll now mode emissions run).2.project := by
  induction emissions generalizing run with
  | nil => exact .refl
  | cons emission rest ih =>
    have first := @works_emit now mode run emission
    unfold emitAll
    split
    · rename_i eq
      rw [eq] at first
      exact first.trans (ih _)
    · exact first

theorem works_generateFiles (emissions : List Emission) (run : Run) :
    Works run.project (generateFiles now mode emissions run).2.project := by
  have made := @works_emitAll now mode emissions run
  unfold generateFiles
  dsimp only
  split
  · rename_i eq
    rw [eq] at made
    exact made
  · exact made

theorem works_cleanUp (run : Run) : Works run.project (cleanUp run).2.project := by
  unfold cleanUp
  split
  · exact .refl
  · have reconciled := run.reconciliation.works_reconcile run.project
    split <;> rename_i eq <;> rw [eq] at reconciled <;> exact reconciled

theorem works_writeEnv (values : Environment.Values) (p : Project) :
    Works p (writeEnv values p).2 := by
  unfold writeEnv
  split
  · exact .refl
  · rename_i text _
    have written := p.works_writeText envPath (Environment.update text values)
    split <;> rename_i eq <;> rw [eq] at written <;> exact written

theorem works_updateEnvironment (s : Schema) (run : Run) :
    Works run.project (updateEnvironment s run).2.project := by
  have written := works_writeEnv (Environment.ofSchema s) run.project
  unfold updateEnvironment
  dsimp only
  split
  · exact .refl
  · split <;> rename_i eq <;> rw [eq] at written <;> exact written

theorem works_makeFiles (options : Options) (s : Schema) (run : Run) :
    Works run.project (makeFiles now options s run).2.project := by
  have cleaned := works_cleanUp run
  unfold makeFiles
  split <;> rename_i eq <;> rw [eq] at cleaned
  · exact cleaned
  · rename_i ready
    have set : Works ready.project (if options.writeEnv then updateEnvironment s ready
        else (.ok (), ready)).2.project := by
      split
      · exact works_updateEnvironment s ready
      · exact .refl
    split <;> rename_i prepared eq <;> rw [eq] at set
    · exact cleaned.trans set
    · have made :=
        @works_generateFiles now options.mode (Emission.ofSchema s options s.dependencyOrder)
        (prepared.log (·.addStep "Order Entities" true
          (toString s.dependencyOrder.length ++ " entities ordered")))
      exact (cleaned.trans set).trans made

theorem works_saveManifest (options : Options) (run : Run) :
    Works run.project (saveManifest now options run).2.project := by
  have saved :=
    run.reconciliation.works_commit (isClean run.report && options.only.isEmpty) now run.project
  unfold saveManifest
  dsimp only
  split <;> rename_i eq <;> rw [eq] at saved <;> exact saved

theorem works_apply (options : Options) (s : Schema) (run : Run) :
    Works run.project (apply now options s run).2.project := by
  have made := @works_makeFiles now options s run
  unfold apply
  split <;> rename_i eq <;> rw [eq] at made
  · exact made
  · exact made.trans (works_saveManifest options _)

end Run

namespace Generation

variable {now : Moment} {options : Options}

theorem works_proceed (s : Schema) (p : Project) (r : Reconciliation) (report : Report) :
    Works p (proceed now options s p r report).2 := by
  unfold proceed
  split
  · exact .refl
  · rename_i plan planned _
    dsimp only
    split
    · exact .refl
    · split
      · exact .refl
      · have applied := @Run.works_apply now options s ⟨p, planned, reportPlan plan report, 0⟩
        split <;> rename_i eq <;> rw [eq] at applied <;> exact applied

theorem works_continueWith (strict : Bool) (s : Schema) (p : Project) (report : Report) :
    Works p (continueWith now options strict s p report).2 := by
  unfold continueWith
  dsimp only
  split
  · exact .refl
  · split
    · exact works_proceed s p _ _
    · exact .refl
    · exact .refl
    · exact .refl

/-- A run from a schema works on its project only, whether it gives a report or not. -/
theorem works_generate (now : Moment) (options : Options) (strict : Bool) (s : Schema)
    (p : Project) : Works p (generate now options strict s p).2 := works_continueWith strict s p _

/-- So does one from a file. -/
theorem works_generateFromFile (now : Moment) (options : Options) (path : Path) (p : Project) :
    Works p (generateFromFile now options path p).2 := by
  unfold generateFromFile
  dsimp only
  split
  · exact works_continueWith false _ p _
  · exact .refl
  · exact .refl
  · exact .refl
  · exact .refl

/-- A run creates, changes and deletes no file outside of the root of its project, whatever the
schema names, the manifest tracks and the disk refuses, and whether it gives a report or is
interrupted. -/
theorem confined_run (now : Moment) (options : Options) (p : Project) :
    (∀ strict s, Project.Confined p (generate now options strict s p).2) ∧
      ∀ path, Project.Confined p (generateFromFile now options path p).2 :=
  ⟨fun strict s => (works_generate now options strict s p).confined,
    fun path => (works_generateFromFile now options path p).confined⟩

end Generation
end Scaffold
