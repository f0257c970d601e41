import Scaffold.Dependency
import Scaffold.Environment
import Scaffold.Generation.Emission
import Scaffold.Generation.Report
import Scaffold.Schema.File
import Scaffold.Validation

/-!
# Generation

A whole run: the schema is checked, the manifest loaded and a plan made; then obsolete files go, the
environment is brought up to date, every file is made, and the manifest is saved. A file that
cannot be made is reported and the run goes on; a run with a failure does not count the schema as
generated, so that the next run tries again.
-/

namespace Scaffold
set_option autoImplicit false

/-- A run under way. -/
structure Run where
  project : Project
  reconciliation : Reconciliation
  report : Report
  /-- How many migrations were named so far. -/
  migrations : Nat := 0

namespace Run

/-- What one piece of a run gives: an interruption ends the run. -/
abbrev Outcome := Except Interruption Unit × Run

def log (run : Run) (change : Report → Report) : Run := { run with report := change run.report }

/-- Records a file in the manifest and in the report. -/
def record (now : Moment) (kind : ArtifactKind) (path : String) (action : FileAction)
    (metadata : Json.Members) (run : Run) : Outcome :=
  match run.reconciliation.record run.project kind.name path metadata now with
  | .ok (_, reconciliation) =>
    (.ok (), { run with reconciliation }.log (·.addFile kind.name path action))
  | .error (.failure f) => (.ok (), run.log (·.addIOFailure kind.name path action f))
  | .error e => (.error e, run)

/-- Writes a file and records it. -/
def store (now : Moment) (kind : ArtifactKind) (path : String) (action : FileAction) (text : String)
    (metadata : Json.Members) (run : Run) : Outcome :=
  match run.project.writeText path text with
  | (.ok _, project) => record now kind path action metadata { run with project }
  | (.error (.failure f), project) =>
    (.ok (), { run with project }.log (·.addIOFailure kind.name path action f))
  | (.error e, project) => (.error e, { run with project })

/-- Writes a file whose content may have failed. -/
def storeRendered (now : Moment) (kind : ArtifactKind) (path : String) (action : FileAction)
    (text : Except Text.NumeralError String) (metadata : Json.Members) (run : Run) : Outcome :=
  match text with
  | .ok text => store now kind path action text metadata run
  | .error e => (.ok (), run.log (·.addRenderFailure kind.name path action e))

/-- Makes a whole file; a merge keeps one that is there. -/
def emitWhole (now : Moment) (mode : Mode) (kind : ArtifactKind) (path : String)
    (text : Except Text.NumeralError String) (metadata : Json.Members) (run : Run) : Outcome :=
  match run.project.fileExists path with
  | .error e => (.error e, run)
  | .ok true =>
    if mode = .merge then record now kind path .skipped metadata run
    else storeRendered now kind path .overwritten text metadata run
  | .ok false => storeRendered now kind path .created text metadata run

/-- Merges a section into a file, or makes the file. -/
def emitMerged (now : Moment) (kind : ArtifactKind) (path : String) (markers : Markers)
    (body : List String) (fresh : String) (anchor : Option String) (indent : String)
    (run : Run) : Outcome :=
  match run.project.fileExists path with
  | .error e => (.error e, run)
  | .ok false => store now kind path .created fresh [] run
  | .ok true =>
    match run.project.readText path with
    | .ok text =>
      let (outcome, text) := Section.merge markers body anchor indent text
      store now kind path (if outcome = .appended then .appended else .merged) text [] run
    | .error (.failure f) => (.ok (), run.log (·.addIOFailure kind.name path .merged f))
    | .error e => (.error e, run)

/-- Records files one after another as they are. -/
def recordAll (now : Moment) (kind : ArtifactKind) (metadata : Json.Members) :
    List String → Run → Outcome
  | [], run => (.ok (), run)
  | path :: rest, run =>
    match record now kind path .skipped metadata run with
    | (.ok (), run) => recordAll now kind metadata rest run
    | failed => failed

/-- Deletes files one after another, up to the first that cannot be deleted; true if all could. -/
def deleteAll (kind : ArtifactKind) : List String → Run → Except Interruption Bool × Run
  | [], run => (.ok true, run)
  | path :: rest, run =>
    match run.project.delete path with
    | .ok (_, project) => deleteAll kind rest { run with project }
    | .error (.failure f) => (.ok false, run.log (·.addIOFailure kind.name path .deleted f))
    | .error e => (.error e, run)

/-- Drops the records of paths one after another. -/
def forgetAll : List String → Reconciliation → Except Interruption Reconciliation
  | [], r => .ok r
  | path :: rest, r => do
    let (_, r) ← r.forget path
    forgetAll rest r

/-- Drops the records of the paths that a pattern stands for. -/
def forgetCovered (pattern : String) (run : Run) : Except Interruption Run := do
  let m ← run.reconciliation.manifest
  let reconciliation ← forgetAll (m.trackedPaths.filter (Pattern.covers pattern)) run.reconciliation
  return { run with reconciliation }

/-- The moment for the name of the next migration: each is a second after the one before. -/
def nextMoment (now : Moment) (run : Run) : Except Interruption Moment :=
  match now.plusSeconds? run.migrations with
  | some moment => .ok moment
  | none => .error .calendarEnds

/-- Writes a migration in place of those that are gone. -/
def writeMigration (now : Moment) (suffix : String) (action : FileAction)
    (text : Except Text.NumeralError String) (metadata : Json.Members) (run : Run) : Outcome :=
  match forgetCovered (Artifact.migrationPattern suffix) run with
  | .error e => (.error e, run)
  | .ok run =>
    match nextMoment now run with
    | .error e => (.error e, run)
    | .ok moment =>
      storeRendered now .migrations (Artifact.migrationPath moment suffix) action text metadata
        { run with migrations := run.migrations + 1 }

/-- Makes a migration. A merge keeps the ones that are there; otherwise they go first, and if one
cannot be deleted no second one is written. -/
def emitMigration (now : Moment) (mode : Mode) (suffix : String)
    (text : Except Text.NumeralError String) (metadata : Json.Members) (run : Run) : Outcome :=
  let pattern := Artifact.migrationPattern suffix
  match run.project.glob pattern with
  | .error (.failure f) =>
    (.ok (), run.log (·.addIOFailure ArtifactKind.migrations.name pattern .created f))
  | .error e => (.error e, run)
  | .ok existing =>
    if mode = .merge && !existing.isEmpty then recordAll now .migrations metadata existing run
    else
      match deleteAll .migrations existing run with
      | (.error e, run) => (.error e, run)
      | (.ok false, run) => (.ok (), run)
      | (.ok true, run) =>
        writeMigration now suffix (if existing.isEmpty then .created else .overwritten)
          text metadata run

/-- Makes one file. -/
def emit (now : Moment) (mode : Mode) (run : Run) : Emission → Outcome
  | .whole kind path text metadata => emitWhole now mode kind path text metadata run
  | .merged kind path markers body fresh anchor indent =>
    emitMerged now kind path markers body fresh anchor indent run
  | .migration suffix text metadata => emitMigration now mode suffix text metadata run

/-- Makes files one after another. -/
def emitAll (now : Moment) (mode : Mode) : List Emission → Run → Outcome
  | [], run => (.ok (), run)
  | emission :: rest, run =>
    match emit now mode run emission with
    | (.ok (), run) => emitAll now mode rest run
    | failed => failed

/-- How many of the files were written, skipped and failed. -/
def tally (files : List FileResult) : String :=
  toString (files.countP fun f => f.isSuccess && f.action ≠ .skipped) ++ " written, " ++
    toString (files.countP (·.action = .skipped)) ++ " skipped, " ++
    toString (files.countP (!·.isSuccess)) ++ " failed"

/-! The steps -/

/-- The step that makes the files. -/
def generateFiles (now : Moment) (mode : Mode) (emissions : List Emission) (run : Run) : Outcome :=
  let before := run.report.files.length
  match emitAll now mode emissions run with
  | (.ok (), run) =>
    let files := run.report.files.drop before
    (.ok (), run.log (·.addStep "Code Generation" (files.all (·.isSuccess)) (tally files)))
  | failed => failed

/-- The kind under which a path is tracked, of several the last. -/
def kindOf? (m : Manifest) (path : String) : Option String :=
  (m.records.reverse.find? fun r => r.2.1 == path).map (·.1)

/-- The report of a cleanup, with the kinds that the paths had before. -/
def reportCleanup (m : Manifest) (mode : Mode) (c : Cleanup) (report : Report) : Report :=
  let deleted := c.deleted.foldl (fun report path =>
    report.addFile ((kindOf? m path).getD ArtifactKind.migrations.name) path .deleted) report
  let failed := c.failures.foldl (fun report f =>
    report.addIOFailure ((kindOf? m f.path).getD "obsolete") f.path .deleted f) deleted
  failed.addStep "Clean Up Obsolete Files" c.isSuccess
    (if mode = .clean then
      toString c.deleted.length ++ " deleted, " ++ toString c.missing.length ++ " already absent"
      else "merge mode keeps existing files")

/-- The step that deletes what is obsolete. -/
def cleanUp (run : Run) : Outcome :=
  match run.reconciliation.manifest with
  | .error e => (.error e, run)
  | .ok before =>
    match run.reconciliation.reconcile run.project with
    | (.ok c, reconciliation, project) =>
      (.ok (), { run with reconciliation, project }.log
        (reportCleanup before reconciliation.mode c))
    | (.error e, reconciliation, project) => (.error e, { run with reconciliation, project })

def envPath : String := ".env"

def envExamplePath : String := ".env.example"

/-- The text in which the environment is set: the one that is there, or the example. -/
def envText (p : Project) : Except Interruption String := do
  if ← p.fileExists envPath then p.readText envPath
  else if ← p.fileExists envExamplePath then p.readText envExamplePath
  else return ""

/-- Sets the values of the environment. -/
def writeEnv (values : Environment.Values) (p : Project) : Except Interruption Unit × Project :=
  match envText p with
  | .error e => (.error e, p)
  | .ok text =>
    match p.writeText envPath (Environment.update text values) with
    | (.ok _, p) => (.ok (), p)
    | (.error e, p) => (.error e, p)

/-- The step that sets the values of the environment; without values there is none. -/
def updateEnvironment (s : Schema) (run : Run) : Outcome :=
  let values := Environment.ofSchema s
  if values.isEmpty then (.ok (), run)
  else
    match writeEnv values run.project with
    | (.ok (), project) =>
      (.ok (), { run with project }.log
        (·.addStep "Update Environment" true (toString values.size ++ " key(s) in " ++ envPath)))
    | (.error (.failure f), project) =>
      (.ok (), { run with project }.log fun r =>
        { r with ioErrors := r.ioErrors ++ [f.message] }.addStep "Update Environment"
          false f.message)
    | (.error e, project) => (.error e, { run with project })

/-- Whether nothing has failed so far. -/
def isClean (r : Report) : Bool :=
  r.generationErrors.isEmpty && r.ioErrors.isEmpty && r.failed.isEmpty

/-- The last name of a path. -/
def lastName (path : String) : String := (Path.ofText path).name

/-- The step that saves the manifest. It is stamped with the schema when the run made everything
and nothing failed. -/
def saveManifest (now : Moment) (options : Options) (run : Run) : Outcome :=
  let clean := isClean run.report
  match run.reconciliation.commit (clean && options.only.isEmpty) now run.project with
  | (.ok entry, reconciliation, project) =>
    let detail :=
      match entry with
      | some path => "history " ++ lastName path
      | none =>
        if clean then "saved without schema stamp (partial run)"
        else "saved without schema stamp (run had failures)"
    (.ok (), { run with reconciliation, project }.log fun r =>
      { r with historyEntry := entry }.addStep "Save Manifest" true detail)
  | (.error (.failure f), reconciliation, project) =>
    (.ok (), { run with reconciliation, project }.log fun r =>
      { r with ioErrors := r.ioErrors ++ [f.message] }.addStep "Save Manifest" false f.message)
  | (.error e, reconciliation, project) => (.error e, { run with reconciliation, project })

/-- The steps after the plan up to the last: what is obsolete goes, and the files are made. -/
def makeFiles (now : Moment) (options : Options) (s : Schema) (run : Run) : Outcome :=
  match cleanUp run with
  | (.error e, run) => (.error e, run)
  | (.ok (), run) =>
    match if options.writeEnv then updateEnvironment s run else (.ok (), run) with
    | (.error e, run) => (.error e, run)
    | (.ok (), run) =>
      let order := s.dependencyOrder
      let run :=
        run.log (·.addStep "Order Entities" true (toString order.length ++ " entities ordered"))
      generateFiles now options.mode (Emission.ofSchema s options order) run

/-- The steps after the plan, in which the project changes. -/
def apply (now : Moment) (options : Options) (s : Schema) (run : Run) : Outcome :=
  match makeFiles now options s run with
  | (.error e, run) => (.error e, run)
  | (.ok (), run) => saveManifest now options run

end Run

namespace Generation

/-- Why a run gives no report. -/
inductive Stop where
  | noDirectory
  | invalid (messages : List String)
  | interrupted (cause : Interruption)
  | build (error : Schema.BuildError)

def Stop.message : Stop → String
  | noDirectory => "expected str, bytes or os.PathLike object, not list"
  | invalid messages => "Schema validation failed with " ++ toString messages.length ++ " error(s)"
  | interrupted cause => cause.message
  | build error => error.message

/-- The report with what the check of the schema found. -/
def reportFindings (found : Findings) (r : Report) : Report :=
  let errors := found.errors.map (·.shown)
  let warnings := found.warnings.map (·.shown)
  let detail :=
    if !errors.isEmpty then toString errors.length ++ " error(s)"
    else if !warnings.isEmpty then toString warnings.length ++ " warning(s)"
    else "all checks passed"
  { r with validationErrors := r.validationErrors ++ errors
           validationWarnings := r.validationWarnings ++ warnings }.addStep
    "Validate Schema" errors.isEmpty detail

/-- The report with the plan. -/
def reportPlan (plan : Plan) (r : Report) : Report :=
  { r with plan := some plan, schemaChanged := plan.schemaChanged }.addStep "Plan Changes" true
    ("schema " ++ (if plan.schemaChanged then "changed" else "unchanged") ++ ", " ++
      toString plan.required.length ++ " required, " ++ toString plan.cleanup.length ++ " obsolete")

/-- The steps that a run goes through once the manifest is loaded. -/
def proceed (now : Moment) (options : Options) (s : Schema) (p : Project)
    (reconciliation : Reconciliation) (report : Report) : Except Stop Report × Project :=
  match reconciliation.diff s with
  | .error e => (.error (.interrupted e), p)
  | .ok (plan, reconciliation) =>
    let report := reportPlan plan report
    if options.mode = .preview then (.ok report, p)
    else if !plan.schemaChanged && !options.force then (.ok { report with unchanged := true }, p)
    else
      match Run.apply now options s { project := p, reconciliation, report } with
      | (.ok (), run) => (.ok run.report, run.project)
      | (.error e, run) => (.error (.interrupted e), run.project)

/-- A run from a schema, after what the report says already. With `strict` an invalid schema gives
no report. -/
def continueWith (now : Moment) (options : Options) (strict : Bool) (s : Schema) (p : Project)
    (report : Report) : Except Stop Report × Project :=
  let found := s.findings
  let report := reportFindings found { report with project := s.project }
  if !found.isValid then
    (if strict then .error (.invalid (found.errors.map (·.shown))) else .ok report, p)
  else
    let reconciliation : Reconciliation := { mode := options.mode }
    match reconciliation.load p with
    | .ok (m, reconciliation) =>
      proceed now options s p reconciliation
        (report.addStep "Load Manifest" true (toString m.count ++ " tracked file(s)"))
    | .error e@(.corrupt _ _) =>
      (.ok ({ report with inputErrors := report.inputErrors ++ [e.message] }.addStep
        "Load Manifest" false e.message), p)
    | .error e@(.failure _) =>
      (.ok ({ report with ioErrors := report.ioErrors ++ [e.message] }.addStep
        "Load Manifest" false e.message), p)
    | .error e => (.error (.interrupted e), p)

/-- A report before the first step. -/
def emptyReport (options : Options) (p : Project) : Report :=
  { mode := options.mode, root := p.disk.absoluteText p.root }

/-- A run from a schema. -/
def generate (now : Moment) (options : Options) (strict : Bool) (s : Schema) (p : Project) :
    Except Stop Report × Project :=
  continueWith now options strict s p (emptyReport options p)

/-- A run from a schema file. -/
def generateFromFile (now : Moment) (options : Options) (path : Path) (p : Project) :
    Except Stop Report × Project :=
  let report := emptyReport options p
  let step := "Load Schema File"
  match Schema.load p.disk path with
  | .ok s =>
    continueWith now options false s p
      (report.addStep step true
        ("from " ++ path.name ++ ", " ++ toString s.entities.size ++ " entities"))
  | .error (.interrupted e@(.failure _)) =>
    (.ok ({ report with ioErrors := [e.message] }.addStep step false e.message), p)
  | .error (.interrupted e) => (.error (.interrupted e), p)
  | .error (.build e) => (.error (.build e), p)
  | .error e => (.ok ({ report with inputErrors := [e.message] }.addStep step false e.message), p)

end Generation
end Scaffold
