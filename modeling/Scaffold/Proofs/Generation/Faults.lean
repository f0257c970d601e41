import Scaffold.Proofs.Generation.Completing
import Scaffold.Proofs.Generation.Previewing

/-!
# Faults of a run

What goes wrong in a run that still ends with a report: an input that gives nothing, a violation of
the schema, a text that a driver cannot make, an operation on a file that fails. The faults are read
off the operations of the run, each at its place and in order (`Run.emitFaults`,
`Generation.faults`), and not off its report. That a report accounts for them (`Report.Accounts`) is
then shown piece by piece: each fault has its message in the list of its kind and nothing else is
listed there, and a file counts as failed only with the message of a fault.
-/

namespace Scaffold
set_option autoImplicit false

open Text (NumeralError)

inductive Fault where
  | input (message : String)
  | violation (message : String)
  /-- The text of a file cannot be made. -/
  | driver (path : String) (error : NumeralError)
  | io (f : IOFailure)
  deriving DecidableEq, Repr

namespace Fault

inductive Kind where
  | input
  | violation
  | driver
  | io
  deriving DecidableEq, Repr

def kind : Fault → Kind
  | input _ => .input
  | violation _ => .violation
  | driver _ _ => .driver
  | io _ => .io

def message : Fault → String
  | input message | violation message => message
  | driver path error => path ++ ": ValueError: " ++ error.message
  | io f => f.message

/-- The messages of the faults of a kind. -/
def messages (kind : Kind) (faults : List Fault) : List String :=
  (faults.filter (·.kind = kind)).map message

theorem messages_append (kind : Kind) (faults more : List Fault) :
    messages kind (faults ++ more) = messages kind faults ++ messages kind more := by
  rw [messages, List.filter_append, List.map_append]
  rfl

theorem mem_messages {kind : Kind} {faults : List Fault} {message : String} :
    message ∈ messages kind faults ↔ ∃ fault ∈ faults, fault.kind = kind ∧
    fault.message = message := by
  simp [messages, and_assoc]

/-- Each fault has its message in the list of its kind. -/
theorem eq_nil_of_messages {faults : List Fault} (empty : ∀ kind, messages kind faults = []) :
    faults = [] := by
  refine List.eq_nil_iff_forall_not_mem.2 fun fault mem => ?_
  have listed : fault.message ∈ messages fault.kind faults := mem_messages.2 ⟨fault, mem, rfl, rfl⟩
  rw [empty] at listed
  exact List.not_mem_nil listed

end Fault

/-- The faults of work that was interrupted; any other interruption leaves no report. -/
def Interruption.faults : Interruption → List Fault
  | failure f => [.io f]
  | corrupt path cause => [.input (corrupt path cause).message]
  | _ => []

/-- The faults of work that may be interrupted. -/
def faultsOf {α : Type} : Except Interruption α → List Fault
  | .ok _ => []
  | .error cause => cause.faults

/-! ## Reports that account for faults -/

namespace Report

/-- The errors of a kind that a report lists. -/
def errors (r : Report) : Fault.Kind → List String
  | .input => r.inputErrors
  | .violation => r.validationErrors
  | .driver => r.generationErrors
  | .io => r.ioErrors

/-- From one report to another the errors of each kind grow by the messages of the faults of that
kind, and a file that is new among the files has no error but the message of a fault of a driver or
a file. -/
structure Accounts (faults : List Fault) (before after : Report) : Prop where
  errors : ∀ kind, after.errors kind = before.errors kind ++ Fault.messages kind faults
  files : ∃ results, after.files = before.files ++ results ∧ ∀ result ∈ results, ∀ error,
    result.error = some error → error ∈ Fault.messages .driver faults ∨
    error ∈ Fault.messages .io faults

variable {faults more : List Fault} {a b c r : Report}

theorem Accounts.trans (first : Accounts faults a b) (second : Accounts more b c) :
    Accounts (faults ++ more) a c where
  errors kind := by rw [second.errors, first.errors, Fault.messages_append, List.append_assoc]
  files := by
    obtain ⟨results, files, each⟩ := first.files
    obtain ⟨results', files', each'⟩ := second.files
    refine ⟨results ++ results', by rw [files', files, List.append_assoc], ?_⟩
    intro result mem error failed
    rw [Fault.messages_append, Fault.messages_append, List.mem_append, List.mem_append]
    rcases List.mem_append.1 mem with mem | mem
    · exact (each result mem error failed).imp .inl .inl
    · exact (each' result mem error failed).imp .inr .inr

/-- Without faults, a report may get files that were dealt with. -/
theorem accounts_nil {results : List FileResult} (errors : ∀ kind, b.errors kind = a.errors kind)
    (files : b.files = a.files ++ results) (dealt : ∀ result ∈ results, result.error = none) :
    Accounts [] a b where
  errors kind := by rw [errors, Fault.messages, List.filter_nil, List.map_nil, List.append_nil]
  files := ⟨results, files, fun result mem error failed => by
    rw [dealt result mem] at failed
    cases failed⟩

/-- Where neither the errors nor the files change there is nothing to account for. -/
theorem accounts_same (errors : ∀ kind, b.errors kind = a.errors kind) (files : b.files = a.files) :
    Accounts [] a b :=
  accounts_nil errors (files.trans (List.append_nil _).symm) (by simp)

theorem Accounts.refl (r : Report) : Accounts [] r r := accounts_same (fun _ => rfl) rfl

theorem accounts_addFile (r : Report) (kind path : String) (action : FileAction) :
    Accounts [] r (r.addFile kind path action) :=
  accounts_nil (fun kind => by cases kind <;> rfl) rfl (by simp)

theorem accounts_addStep (r : Report) (name : String) (success : Bool) (detail : String) :
    Accounts [] r (r.addStep name success detail) :=
  accounts_same (fun kind => by cases kind <;> rfl) rfl

/-- A step that is noted behind faults adds none. -/
theorem Accounts.addStep (h : Accounts faults a b) (name : String) (success : Bool)
    (detail : String) : Accounts faults a (b.addStep name success detail) := by
  have whole := h.trans (accounts_addStep b name success detail)
  rwa [List.append_nil] at whole

/-- An operation on a file that fails, noted among the errors of files. -/
theorem accounts_ioErrors (r : Report) (f : IOFailure) :
    Accounts [.io f] r { r with ioErrors := r.ioErrors ++ [f.message] } where
  errors kind := by cases kind <;> simp [errors, Fault.messages, Fault.kind, Fault.message]
  files := ⟨[], (List.append_nil _).symm, by simp⟩

/-- An input that gives nothing. -/
theorem accounts_inputErrors (r : Report) (message : String) :
    Accounts [.input message] r { r with inputErrors := r.inputErrors ++ [message] } where
  errors kind := by cases kind <;> simp [errors, Fault.messages, Fault.kind, Fault.message]
  files := ⟨[], (List.append_nil _).symm, by simp⟩

theorem accounts_addIOFailure (r : Report) (kind path : String) (action : FileAction)
    (f : IOFailure) : Accounts [.io f] r (r.addIOFailure kind path action f) where
  errors kind := by
    cases kind <;> simp [errors, addIOFailure, Fault.messages, Fault.kind, Fault.message]
  files := ⟨_, rfl, by simp [Fault.messages, Fault.kind, Fault.message]⟩

theorem accounts_addRenderFailure (r : Report) (kind path : String) (action : FileAction)
    (e : NumeralError) : Accounts [.driver path e] r (r.addRenderFailure kind path action e) where
  errors kind := by
    cases kind <;> simp [errors, addRenderFailure, Fault.messages, Fault.kind, Fault.message]
  files := ⟨_, rfl, by simp [Fault.messages, Fault.kind, Fault.message]⟩

end Report

/-! ## Faults of a cleanup -/

namespace Cleanup

/-- The deletions among several that fail, from one file to the next. -/
def deletionFaults : List String → Project → List Fault
  | [], _ => []
  | path :: rest, p =>
    match p.delete path with
    | .ok (_, project) => deletionFaults rest project
    | .error cause => cause.faults ++ deletionFaults rest p

/-- The faults of the cleanup of one tracked path: its files cannot be found, or not be deleted. -/
def pathFaults (required : List String) (path : String) (p : Project) : List Fault :=
  match targets p required path with
  | .ok files => deletionFaults files p
  | .error cause => cause.faults

/-- The faults of a cleanup, path by path. -/
def faults (required : List String) : List String → Progress → List Fault
  | [], _ => []
  | path :: rest, g =>
    pathFaults required path g.project ++
      match cleanPath required path g with
      | (.ok (), g) => faults required rest g
      | (.error _, _) => []

/-- The failures that a cleanup has collected, as faults. -/
def Progress.faults (g : Progress) : List Fault := g.report.failures.map .io

variable {required paths files : List String} {path : String} {g after : Progress} {all : Bool}

/-- Each deletion that fails is collected. -/
theorem faults_deleteFiles (h : deleteFiles files g = (.ok all, after)) :
    after.faults = g.faults ++ deletionFaults files g.project := by
  induction files generalizing g all with
  | nil =>
    obtain ⟨-, rfl⟩ := Prod.mk.inj h
    exact (List.append_nil _).symm
  | cons path rest ih =>
    rw [deleteFiles] at h
    rw [deletionFaults]
    split at h
    · rename_i project deleted
      simp only [deleted]
      exact ih h
    · rename_i project deleted
      simp only [deleted]
      exact ih h
    · rename_i f failed
      split at h
      · rename_i further
        obtain ⟨-, rfl⟩ := Prod.mk.inj h
        rw [ih further]
        simp [Progress.faults, failed, Interruption.faults]
      · cases (Prod.mk.inj h).1
    · cases (Prod.mk.inj h).1

theorem faults_cleanPath (h : cleanPath required path g = (.ok (), after)) :
    after.faults = g.faults ++ pathFaults required path g.project := by
  rw [cleanPath] at h
  rw [pathFaults]
  split at h
  · rename_i f failed
    obtain ⟨-, rfl⟩ := Prod.mk.inj h
    simp [Progress.faults, failed, Interruption.faults]
  · cases (Prod.mk.inj h).1
  · rename_i files found
    simp only [found]
    split at h
    · rename_i deleted
      obtain ⟨-, rfl⟩ := Prod.mk.inj h
      have collected := faults_deleteFiles deleted
      exact collected
    · rename_i deleted
      obtain ⟨-, rfl⟩ := Prod.mk.inj h
      exact faults_deleteFiles deleted
    · cases (Prod.mk.inj h).1

/-- Each fault of a cleanup is collected. -/
theorem faults_cleanPaths (h : cleanPaths required paths g = (.ok (), after)) :
    after.faults = g.faults ++ faults required paths g := by
  induction paths generalizing g with
  | nil =>
    obtain ⟨-, rfl⟩ := Prod.mk.inj h
    exact (List.append_nil _).symm
  | cons path rest ih =>
    rw [cleanPaths] at h
    rw [faults]
    cases first : cleanPath required path g with
    | mk outcome between =>
      rw [first] at h
      cases outcome with
      | error cause => cases (Prod.mk.inj h).1
      | ok _ => rw [ih h, faults_cleanPath first, List.append_assoc]

end Cleanup

/-- The faults of deleting what a schema does not require. -/
def Manifest.cleanupFaults (m : Manifest) (s : Schema) (p : Project) : List Fault :=
  Cleanup.faults s.requiredArtifacts (m.obsolete s) ⟨{}, m, p⟩

theorem Manifest.failures_cleanup {m : Manifest} {s : Schema} {p : Project} {c : Cleanup}
    (h : (m.cleanup s p).1 = .ok c) : c.failures.map .io = m.cleanupFaults s p := by
  unfold cleanup at h
  cases cleaning : Cleanup.cleanPaths s.requiredArtifacts (m.obsolete s) ⟨{}, m, p⟩ with
  | mk outcome after =>
    rw [cleaning] at h
    cases outcome with
    | error cause => cases h
    | ok _ =>
      obtain rfl := Except.ok.inj h
      exact Cleanup.faults_cleanPaths cleaning

/-- A reconciliation that has made its plan collects the faults of its cleanup; where files are kept
there are none. -/
theorem Reconciliation.failures_reconcile {options : Options} {s : Schema} {m : Manifest}
    {p : Project} {c : Cleanup} (acts : options.mode ≠ .preview)
    (h : ((planned options s m).reconcile p).1 = .ok c) :
    c.failures.map .io = if options.mode = .clean then m.cleanupFaults s p else [] := by
  cases modes : options.mode with
  | preview => exact absurd modes acts
  | merge =>
    simp only [planned, reconcile, expect, modes, if_true] at h
    obtain rfl := Except.ok.inj h
    rfl
  | clean =>
    rw [reconcile_planned modes] at h
    rw [if_pos rfl]
    by_cases empty : (m.obsolete s).isEmpty = true
    · rw [if_pos empty] at h
      obtain rfl := Except.ok.inj h
      rw [Manifest.cleanupFaults, List.isEmpty_iff.1 empty]
      rfl
    · rw [if_neg empty] at h
      refine Manifest.failures_cleanup ?_
      cases cleaning : m.cleanup s p with
      | mk outcome left =>
        rw [cleaning] at h
        cases outcome <;> exact h

/-! ## Faults of the pieces of a run -/

namespace Run

/-- The faults of what follows on a piece of a run; after an interruption nothing does. -/
def afterwards {α : Type} (outcome : Except Interruption α × Run)
    (faults : α → Run → List Fault) : List Fault :=
  match outcome with
  | (.ok a, run) => faults a run
  | (.error _, _) => []

/-- A piece of a run that comes to its end has accounted for faults. -/
def Accounted {α : Type} (faults : List Fault) (run : Run) : Except Interruption α × Run → Prop
  | (.ok _, after) => Report.Accounts faults run.report after.report
  | (.error _, _) => True

def recordFaults (now : Moment) (kind : ArtifactKind) (path : String) (metadata : Json.Members)
    (run : Run) : List Fault :=
  faultsOf (run.reconciliation.record run.project kind.name path metadata now)

def storeFaults (now : Moment) (kind : ArtifactKind) (path text : String) (metadata : Json.Members)
    (run : Run) : List Fault :=
  match run.project.writeText path text with
  | (.ok _, project) => recordFaults now kind path metadata { run with project }
  | (.error cause, _) => cause.faults

def renderedFaults (now : Moment) (kind : ArtifactKind) (path : String)
    (text : Except NumeralError String) (metadata : Json.Members) (run : Run) : List Fault :=
  match text with
  | .ok text => storeFaults now kind path text metadata run
  | .error error => [.driver path error]

def wholeFaults (now : Moment) (mode : Mode) (kind : ArtifactKind) (path : String)
    (text : Except NumeralError String) (metadata : Json.Members) (run : Run) : List Fault :=
  match run.project.fileExists path with
  | .error cause => cause.faults
  | .ok found =>
    if found ∧ mode = .merge then recordFaults now kind path metadata run
    else renderedFaults now kind path text metadata run

def mergedFaults (now : Moment) (kind : ArtifactKind) (path : String) (markers : Markers)
    (body : List String) (fresh : String) (anchor : Option String) (indent : String)
    (run : Run) : List Fault :=
  match run.project.fileExists path with
  | .error cause => cause.faults
  | .ok false => storeFaults now kind path fresh [] run
  | .ok true =>
    match run.project.readText path with
    | .ok text => storeFaults now kind path (Section.merge markers body anchor indent text).2 [] run
    | .error cause => cause.faults

def recordAllFaults (now : Moment) (kind : ArtifactKind) (metadata : Json.Members) :
    List String → Run → List Fault
  | [], _ => []
  | path :: rest, run =>
    recordFaults now kind path metadata run ++
      afterwards (record now kind path .skipped metadata run) fun _ =>
        recordAllFaults now kind metadata rest

def deleteAllFaults : List String → Run → List Fault
  | [], _ => []
  | path :: rest, run =>
    match run.project.delete path with
    | .ok (_, project) => deleteAllFaults rest { run with project }
    | .error cause => cause.faults

def writeMigrationFaults (now : Moment) (suffix : String) (text : Except NumeralError String)
    (metadata : Json.Members) (run : Run) : List Fault :=
  match forgetCovered (Artifact.migrationPattern suffix) run with
  | .error cause => cause.faults
  | .ok run =>
    match nextMoment now run with
    | .error cause => cause.faults
    | .ok moment =>
      renderedFaults now .migrations (Artifact.migrationPath moment suffix) text metadata
        { run with migrations := run.migrations + 1 }

def migrationFaults (now : Moment) (mode : Mode) (suffix : String)
    (text : Except NumeralError String) (metadata : Json.Members)
    (run : Run) : List Fault :=
  match run.project.glob (Artifact.migrationPattern suffix) with
  | .error cause => cause.faults
  | .ok existing =>
    if mode = .merge && !existing.isEmpty then recordAllFaults now .migrations metadata existing run
    else
      deleteAllFaults existing run ++
        afterwards (deleteAll .migrations existing run) fun all run =>
          if all then writeMigrationFaults now suffix text metadata run else []

/-- The faults of making one file. -/
def emitFaults (now : Moment) (mode : Mode) (run : Run) : Emission → List Fault
  | .whole kind path text metadata => wholeFaults now mode kind path text metadata run
  | .merged kind path markers body fresh anchor indent =>
    mergedFaults now kind path markers body fresh anchor indent run
  | .migration suffix text metadata => migrationFaults now mode suffix text metadata run

/-- The faults of making files one after another. -/
def emitAllFaults (now : Moment) (mode : Mode) : List Emission → Run → List Fault
  | [], _ => []
  | emission :: rest, run =>
    emitFaults now mode run emission ++ afterwards (emit now mode run emission) fun _ =>
      emitAllFaults now mode rest

variable {now : Moment} {mode : Mode} {run : Run} {kind : ArtifactKind} {path : String}
  {faults more : List Fault} {metadata : Json.Members}

theorem accounted_record (now : Moment) (kind : ArtifactKind) (path : String) (action : FileAction)
    (metadata : Json.Members)
    (run : Run) :
    Accounted (recordFaults now kind path metadata run) run
      (record now kind path action metadata run) := by
  unfold record recordFaults
  cases run.reconciliation.record run.project kind.name path metadata now with
  | ok result => exact Report.accounts_addFile ..
  | error cause =>
    cases cause with
    | failure f => exact Report.accounts_addIOFailure ..
    | _ => trivial

theorem accounted_store (now : Moment) (kind : ArtifactKind) (path : String) (action : FileAction)
    (text : String) (metadata : Json.Members) (run : Run) :
    Accounted (storeFaults now kind path text metadata run) run
      (store now kind path action text metadata run) := by
  unfold store storeFaults
  cases run.project.writeText path text with
  | mk outcome project =>
    cases outcome with
    | ok size => exact accounted_record now kind path action metadata { run with project }
    | error cause =>
      cases cause with
      | failure f => exact Report.accounts_addIOFailure ..
      | _ => trivial

theorem accounted_storeRendered (now : Moment) (kind : ArtifactKind) (path : String)
    (action : FileAction) (text : Except NumeralError String)
    (metadata : Json.Members) (run : Run) :
    Accounted (renderedFaults now kind path text metadata run) run
      (storeRendered now kind path action text metadata run) := by
  cases text with
  | ok text => exact accounted_store now kind path action text metadata run
  | error e => exact Report.accounts_addRenderFailure ..

theorem accounted_emitWhole (now : Moment) (mode : Mode) (kind : ArtifactKind) (path : String)
    (text : Except NumeralError String) (metadata : Json.Members) (run : Run) :
    Accounted (wholeFaults now mode kind path text metadata run) run
      (emitWhole now mode kind path text metadata run) := by
  unfold emitWhole wholeFaults
  cases run.project.fileExists path with
  | error cause => trivial
  | ok found =>
    cases found with
    | false => exact accounted_storeRendered now kind path .created text metadata run
    | true =>
      by_cases merges : mode = .merge
      · simp only [merges, and_self, if_true]
        exact accounted_record now kind path .skipped metadata run
      · simp only [merges, and_false, if_false]
        exact accounted_storeRendered now kind path .overwritten text metadata run

theorem accounted_emitMerged (now : Moment) (kind : ArtifactKind) (path : String)
    (markers : Markers) (body : List String) (fresh : String) (anchor : Option String)
    (indent : String) (run : Run) :
    Accounted (mergedFaults now kind path markers body fresh anchor indent run) run
      (emitMerged now kind path markers body fresh anchor indent run) := by
  unfold emitMerged mergedFaults
  cases run.project.fileExists path with
  | error cause => trivial
  | ok found =>
    cases found with
    | false => exact accounted_store now kind path .created fresh [] run
    | true =>
      dsimp only
      cases run.project.readText path with
      | ok text => exact accounted_store ..
      | error cause =>
        cases cause with
        | failure f => exact Report.accounts_addIOFailure ..
        | _ => trivial

/-- A piece of a run and what follows on it, where that has accounted for its own faults. -/
theorem Accounted.followed {α β : Type} {outcome : Except Interruption α × Run}
    {result : Except Interruption β × Run} {more : α → Run → List Fault}
    (first : Accounted faults run outcome)
    (ended : ∀ a after, outcome = (.ok a, after) → Accounted (more a after) after result)
    (stopped : ∀ cause after, outcome = (.error cause, after) → ∃ cause' after',
      result = (.error cause', after')) :
    Accounted (faults ++ afterwards outcome more) run result := by
  obtain ⟨given, between⟩ := outcome
  cases given with
  | error cause =>
    obtain ⟨cause', after', rfl⟩ := stopped cause between rfl
    trivial
  | ok a =>
    have later := ended a between rfl
    obtain ⟨given, after⟩ := result
    cases given with
    | error cause => trivial
    | ok _ => exact first.trans later

theorem accounted_recordAll (now : Moment) (kind : ArtifactKind) (metadata : Json.Members)
    (paths : List String)
    (run : Run) :
    Accounted (recordAllFaults now kind metadata paths run) run
      (recordAll now kind metadata paths run) := by
  induction paths generalizing run with
  | nil => exact .refl run.report
  | cons path rest ih =>
    rw [recordAllFaults]
    refine (accounted_record now kind path .skipped metadata run).followed
      (fun _ between recorded => ?_) fun cause between failed => ?_
    · rw [recordAll, recorded]
      exact ih between
    · exact ⟨cause, between, by rw [recordAll, failed]⟩

theorem accounted_deleteAll (kind : ArtifactKind) (paths : List String) (run : Run) :
    Accounted (deleteAllFaults paths run) run (deleteAll kind paths run) := by
  induction paths generalizing run with
  | nil => exact .refl run.report
  | cons path rest ih =>
    rw [deleteAll, deleteAllFaults]
    cases run.project.delete path with
    | ok result => exact ih { run with project := result.2 }
    | error cause =>
      cases cause with
      | failure f => exact Report.accounts_addIOFailure ..
      | _ => trivial

theorem accounted_writeMigration (now : Moment) (suffix : String) (action : FileAction)
    (text : Except NumeralError String) (metadata : Json.Members) (run : Run) :
    Accounted (writeMigrationFaults now suffix text metadata run) run
      (writeMigration now suffix action text metadata run) := by
  unfold writeMigration writeMigrationFaults
  cases forgotten : forgetCovered (Artifact.migrationPattern suffix) run with
  | error cause => trivial
  | ok between =>
    obtain ⟨m, left, -, rfl, -⟩ := forgetCovered_eq_ok forgotten
    dsimp only
    cases nextMoment now _ with
    | error cause => trivial
    | ok moment => exact accounted_storeRendered ..

theorem accounted_emitMigration (now : Moment) (mode : Mode) (suffix : String)
    (text : Except NumeralError String) (metadata : Json.Members) (run : Run) :
    Accounted (migrationFaults now mode suffix text metadata run) run
      (emitMigration now mode suffix text metadata run) := by
  unfold emitMigration migrationFaults
  dsimp only
  cases run.project.glob (Artifact.migrationPattern suffix) with
  | error cause =>
    cases cause with
    | failure f => exact Report.accounts_addIOFailure ..
    | _ => trivial
  | ok existing =>
    dsimp only
    split
    · exact accounted_recordAll now .migrations metadata existing run
    · refine (accounted_deleteAll .migrations existing run).followed (fun all between deleted => ?_)
        fun cause between failed => ?_
      · rw [deleted]
        cases all with
        | false => exact .refl between.report
        | true => exact accounted_writeMigration ..
      · exact ⟨cause, between, by rw [failed]⟩

theorem accounted_emit (now : Moment) (mode : Mode) (run : Run) (e : Emission) :
    Accounted (emitFaults now mode run e) run (emit now mode run e) := by
  cases e with
  | whole kind path text metadata => exact accounted_emitWhole now mode kind path text metadata run
  | merged kind path markers body fresh anchor indent =>
    exact accounted_emitMerged now kind path markers body fresh anchor indent run
  | migration suffix text metadata =>
    exact accounted_emitMigration now mode suffix text metadata run

theorem accounted_emitAll (now : Moment) (mode : Mode) (emissions : List Emission) (run : Run) :
    Accounted (emitAllFaults now mode emissions run) run (emitAll now mode emissions run) := by
  induction emissions generalizing run with
  | nil => exact .refl run.report
  | cons e rest ih =>
    rw [emitAllFaults]
    refine (accounted_emit now mode run e).followed (fun _ between emitted => ?_)
      fun cause between failed => ?_
    · rw [emitAll, emitted]
      exact ih between
    · exact ⟨cause, between, by rw [emitAll, failed]⟩

/-! ## Faults of the steps -/

def environmentFaults (s : Schema) (run : Run) : List Fault :=
  if (Environment.ofSchema s).isEmpty then []
  else faultsOf (writeEnv (Environment.ofSchema s) run.project).1

/-- The faults of the steps between a plan and the files. -/
def prepareFaults (options : Options) (s : Schema) (m : Manifest) (run : Run) : List Fault :=
  (if options.mode = .clean then m.cleanupFaults s run.project else []) ++
    afterwards (cleanUp run) fun _ run => if options.writeEnv then environmentFaults s run else []

def saveFaults (now : Moment) (options : Options) (run : Run) : List Fault :=
  faultsOf (run.reconciliation.commit (isClean run.report && options.only.isEmpty) now
    run.project).1

/-- The faults of the steps in which a project changes. -/
def applyFaults (now : Moment) (options : Options) (s : Schema) (m : Manifest)
    (run : Run) : List Fault :=
  prepareFaults options s m run ++
    (afterwards (prepare options s run) fun _ => emitAllFaults now options.mode
      (Emission.ofSchema s options s.dependencyOrder)) ++
    afterwards (makeFiles now options s run) fun _ => saveFaults now options

variable {options : Options}

/-- What a cleanup has done is noted with its failures. -/
theorem accounts_reportCleanup (m : Manifest) (mode : Mode) (c : Cleanup) (report : Report) :
    Report.Accounts (c.failures.map .io) report (reportCleanup m mode c report) := by
  have deleted :
      ∀ (paths : List String) (r : Report), Report.Accounts [] r (paths.foldl (fun r path =>
        r.addFile ((kindOf? m path).getD ArtifactKind.migrations.name) path .deleted) r) := by
    intro paths
    induction paths with
    | nil => exact Report.Accounts.refl
    | cons path rest ih => exact fun r => (Report.accounts_addFile ..).trans (ih _)
  have failed : ∀ (failures : List IOFailure)
      (r : Report), Report.Accounts (failures.map .io) r (failures.foldl (fun r f =>
        r.addIOFailure ((kindOf? m f.path).getD "obsolete") f.path .deleted f) r) := by
    intro failures
    induction failures with
    | nil => exact Report.Accounts.refl
    | cons f rest ih => exact fun r => (Report.accounts_addIOFailure ..).trans (ih _)
  exact ((deleted c.deleted report).trans (failed c.failures _)).addStep ..

/-- The cleanup of a planned run accounts for its faults; where files are kept there are none. -/
theorem accounted_cleanUp (s : Schema) (p : Project) (m : Manifest) (report : Report)
    (acts : options.mode ≠ .preview) :
    Accounted (if options.mode = .clean then m.cleanupFaults s p else [])
      (planned options s p m report)
      (cleanUp (planned options s p m report)) := by
  have known : (planned options s p m report).reconciliation.manifest = .ok m := rfl
  have collected {c : Cleanup} :=
    Reconciliation.failures_reconcile (s := s) (m := m) (p := p) (c := c) acts
  unfold cleanUp
  rw [known]
  dsimp only
  cases reconciling : (planned options s p m report).reconciliation.reconcile
      (planned options s p m report).project with
  | mk outcome left =>
    obtain ⟨reconciliation, project⟩ := left
    have same : (Reconciliation.planned options s m).reconcile p = (outcome, reconciliation,
      project) := reconciling
    rw [same] at collected
    cases outcome with
    | error cause => trivial
    | ok c =>
      rw [← collected rfl]
      exact accounts_reportCleanup ..

theorem accounted_updateEnvironment (s : Schema) (run : Run) :
    Accounted (environmentFaults s run) run (updateEnvironment s run) := by
  unfold updateEnvironment environmentFaults
  dsimp only
  split
  · exact .refl run.report
  · cases writeEnv (Environment.ofSchema s) run.project with
    | mk outcome project =>
      cases outcome with
      | ok _ => exact Report.accounts_addStep ..
      | error cause =>
        cases cause with
        | failure f => exact (Report.accounts_ioErrors run.report f).addStep ..
        | _ => trivial

theorem accounted_prepare (s : Schema) (p : Project) (m : Manifest) (report : Report)
    (acts : options.mode ≠ .preview) :
    Accounted (prepareFaults options s m (planned options s p m report))
      (planned options s p m report)
      (prepare options s (planned options s p m report)) := by
  refine (accounted_cleanUp s p m report acts).followed (fun _ between ran => ?_)
    fun cause between failed => ?_
  · rw [prepare, ran]
    dsimp only
    split
    · have set := accounted_updateEnvironment s between
      cases setting : updateEnvironment s between with
      | mk outcome after =>
        rw [setting] at set
        cases outcome with
        | error cause => trivial
        | ok _ => exact Report.Accounts.addStep set ..
    · exact Report.accounts_addStep ..
  · exact ⟨cause, between, by rw [prepare, failed]⟩

theorem accounted_generateFiles (now : Moment) (mode : Mode)
    (emissions : List Emission)
    (run : Run) :
    Accounted (emitAllFaults now mode emissions run) run
      (generateFiles now mode emissions run) := by
  have made := accounted_emitAll now mode emissions run
  unfold generateFiles
  dsimp only
  cases emitting : emitAll now mode emissions run with
  | mk outcome after =>
    rw [emitting] at made
    cases outcome with
    | error cause => trivial
    | ok _ => exact Report.Accounts.addStep made ..

theorem accounted_saveManifest (now : Moment) (options : Options) (run : Run) :
    Accounted (saveFaults now options run) run (saveManifest now options run) := by
  unfold saveManifest saveFaults
  dsimp only
  cases run.reconciliation.commit (isClean run.report && options.only.isEmpty) now run.project with
  | mk outcome left =>
    obtain ⟨reconciliation, project⟩ := left
    cases outcome with
    | ok entry =>
      have entered : Report.Accounts [] run.report { run.report with historyEntry := entry } :=
        Report.accounts_same (fun kind => by cases kind <;> rfl) rfl
      exact entered.addStep ..
    | error cause =>
      cases cause with
      | failure f => exact (Report.accounts_ioErrors run.report f).addStep ..
      | _ => trivial

/-- The steps of a run after its plan account for their faults. -/
theorem accounted_apply (now : Moment) (s : Schema) (p : Project) (m : Manifest) (report : Report)
    (acts : options.mode ≠ .preview) :
    Accounted (applyFaults now options s m (planned options s p m report))
      (planned options s p m report)
      (apply now options s (planned options s p m report)) := by
  have made : Accounted (prepareFaults options s m (planned options s p m report) ++
      afterwards (prepare options s (planned options s p m report)) fun _ =>
        emitAllFaults now options.mode (Emission.ofSchema s options s.dependencyOrder))
          (planned options s p m report)
      (makeFiles now options s (planned options s p m report)) := by
    refine (accounted_prepare s p m report acts).followed (fun _ between prepared => ?_)
      fun cause between failed => ?_
    · rw [makeFiles_eq, prepared]
      exact accounted_generateFiles ..
    · exact ⟨cause, between, by rw [makeFiles_eq, failed]⟩
  refine made.followed (fun _ between ran => ?_) fun cause between failed => ?_
  · rw [apply, ran]
    exact accounted_saveManifest ..
  · exact ⟨cause, between, by rw [apply, failed]⟩

end Run

end Scaffold
