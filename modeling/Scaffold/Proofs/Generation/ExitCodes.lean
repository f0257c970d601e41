import Scaffold.Proofs.Generation.Failing
import Scaffold.Proofs.Generation.Faults

/-!
# Exit codes

The exit code of a report tells what went wrong in the run: it is 0 exactly when nothing did, and a
file that counts as failed has its error in the list of the drivers or of the files.
`Generation.tells_of_reports` says so of every run, from a schema or from a file, that ends with a
report.
-/

namespace Scaffold
set_option autoImplicit false

/-- The faults of a schema file that gives no schema; one that cannot be built leaves no report. -/
def Schema.LoadError.faults : Schema.LoadError → List Fault
  | interrupted cause => cause.faults
  | build _ => []
  | notFound path => [.input (notFound path).message]
  | invalid path error => [.input (invalid path error).message]

/-! ## What an exit code tells -/

namespace Report

variable {r : Report}

theorem isSuccess_iff : r.isSuccess = true ↔ (∀ kind, r.errors kind = []) ∧ r.failed = [] := by
  have each : (∀ kind, r.errors kind = []) ↔
      r.inputErrors = [] ∧ r.validationErrors = [] ∧ r.generationErrors = [] ∧ r.ioErrors = [] := by
    constructor
    · intro absent
      exact ⟨absent .input, absent .violation, absent .driver, absent .io⟩
    · rintro ⟨input, violation, driver, io⟩ kind
      cases kind <;> assumption
  rw [each]
  simp [isSuccess, and_assoc]

theorem exitCode_eq_zero_iff : r.exitCode = 0 ↔ r.isSuccess = true := by
  unfold exitCode
  split
  · rename_i success
    simp [success]
  · rename_i failure
    refine iff_of_false ?_ failure
    split
    · decide
    · split
      · decide
      · split <;> decide

theorem generationErrors_of_exitCode (h : r.exitCode = 2) : r.generationErrors ≠ [] := by
  intro absent
  rw [exitCode, absent] at h
  split at h
  · cases h
  · split at h
    · cases h
    · split at h <;> cases h

/-- The last code is left for what is in none of the first three lists. -/
theorem lists_of_exitCode (h : r.exitCode = 3) :
    r.isSuccess = false ∧ r.inputErrors = [] ∧ r.validationErrors = [] ∧
    r.generationErrors = [] := by
  rw [exitCode] at h
  split at h
  · cases h
  · rename_i failure
    split at h
    · cases h
    · rename_i input
      split at h
      · cases h
      · rename_i violation
        split at h
        · cases h
        · rename_i driver
          exact ⟨by simpa using failure, by simpa using input, by simpa using violation, by
            simpa using driver⟩

theorem mem_failed {file : FileResult} :
    file ∈ r.failed ↔ file ∈ r.files ∧ ∃ error, file.error = some error := by
  rw [failed, List.mem_filter, FileResult.isSuccess, Bool.not_eq_true', Option.isNone_eq_false_iff,
    Option.isSome_iff_exists]

end Report

/-! ## The faults of a run -/

namespace Generation

/-- The faults of a run once it has its plan: a preview ends there, and so does a run for which
nothing has changed. -/
def planFaults (now : Moment) (options : Options) (s : Schema) (p : Project) (m : Manifest)
    (begun : Report) : List Fault :=
  if options.mode = .preview then []
  else if !m.differsFrom s && !options.force then []
  else Run.applyFaults now options s m (Run.planned options s p m begun)

/-- The faults of a run from a schema, after what the report says already. -/
def schemaFaults (now : Moment) (options : Options) (s : Schema) (p : Project)
    (start : Report) : List Fault :=
  s.findings.errors.map (fun finding => .violation finding.shown) ++
    if s.findings.isValid then
      match ({} : Store).load p with
      | .ok m => planFaults now options s p m (begun options s m start)
      | .error cause => cause.faults
    else []

/-- The faults of a run from a schema file. -/
def fileFaults (now : Moment) (options : Options) (path : Path) (p : Project) : List Fault :=
  match Schema.load p.disk path with
  | .ok s => schemaFaults now options s p ((emptyReport options p).addStep "Load Schema File" true
      ("from " ++ path.name ++ ", " ++ toString s.entities.size ++ " entities"))
  | .error e => e.faults

/-- A run from a schema or from a file ends with a report, and these are its faults. -/
inductive Reports (now : Moment) (options : Options) (p : Project) (report : Report)
    (after : Project) : List Fault → Prop where
  | ofSchema (strict : Bool) (s : Schema)
      (ran : generate now options strict s p = (.ok report, after)) :
      Reports now options p report after (schemaFaults now options s p (emptyReport options p))
  | ofFile (path : Path) (ran : generateFromFile now options path p = (.ok report, after)) :
      Reports now options p report after (fileFaults now options path p)

/-- What a report says of the faults of its run. -/
structure Tells (faults : List Fault) (report : Report) : Prop where
  /-- Each list of errors has the messages of the faults of its kind and no others. -/
  errors : ∀ kind, report.errors kind = Fault.messages kind faults
  success : report.exitCode = 0 ↔ faults = []
  failed : ∀ file ∈ report.failed, ∃ error, file.error = some error ∧
    (error ∈ report.generationErrors ∨ error ∈ report.ioErrors)
  driver : report.exitCode = 2 → ∃ path error, .driver path error ∈ faults
  io : report.exitCode = 3 → report.ioErrors ≠ []

variable {now : Moment} {options : Options} {s : Schema} {p after : Project} {m : Manifest}
  {report start : Report} {faults : List Fault}

open Report (Accounts)

theorem accounts_decided (h : decided now options s p m start = (.ok report, after)) :
    Accounts (planFaults now options s p m start) start report := by
  unfold decided at h
  rw [planFaults]
  split at h
  · rename_i preview
    obtain ⟨same, -⟩ := Prod.mk.inj h
    obtain rfl := Except.ok.inj same
    rw [if_pos preview]
    exact .refl start
  · rename_i acts
    rw [if_neg acts]
    split at h
    · rename_i rests
      obtain ⟨same, -⟩ := Prod.mk.inj h
      obtain rfl := Except.ok.inj same
      rw [if_pos rests]
      exact Report.accounts_same (fun kind => by cases kind <;> rfl) rfl
    · rename_i due
      obtain ⟨run, ran, rfl, -⟩ := ended_eq_ok h
      have applied := Run.accounted_apply now s p m start acts
      rw [ran] at applied
      rw [if_neg due]
      exact applied

theorem accounts_reportFindings (found : Findings) (r : Report) :
    Accounts (found.errors.map fun finding => .violation finding.shown) r
      (reportFindings found r) := by
  have plain : Accounts (found.errors.map fun finding => .violation finding.shown) r
      { r with validationErrors := r.validationErrors ++ found.errors.map (·.shown)
               validationWarnings := r.validationWarnings ++ found.warnings.map (·.shown) } := by
    refine ⟨fun kind => ?_, [], (List.append_nil _).symm, by simp⟩
    cases kind <;> simp [Report.errors, Fault.messages, Fault.kind, Fault.message, List.filter_map,
      Function.comp_def]
  exact plain.addStep ..

/-- A manifest that cannot be loaded is an error of the input or of a file. -/
theorem accounts_continueWith {strict : Bool}
    (h : continueWith now options strict s p start = (.ok report, after)) :
    Accounts (schemaFaults now options s p start) start report := by
  have named : Accounts [] start { start with project := s.project } :=
    Report.accounts_same (fun kind => by cases kind <;> rfl) rfl
  have found := named.trans (accounts_reportFindings s.findings { start with project := s.project })
  rw [List.nil_append] at found
  unfold schemaFaults
  cases valid : s.findings.isValid with
  | false =>
    simp only [continueWith, valid, Bool.not_false, if_true] at h
    cases strict with
    | true => cases (Prod.mk.inj h).1
    | false =>
      obtain ⟨same, -⟩ := Prod.mk.inj h
      obtain rfl := Except.ok.inj same
      simpa using found
  | true =>
    refine found.trans ?_
    simp only [if_true]
    cases loads : ({} : Store).load p with
    | ok m =>
      rw [continueWith_eq start valid loads] at h
      split at h
      · have decided := accounts_decided h
        have planned : Accounts [] (reportFindings s.findings { start with project := s.project })
          (begun options s m start) :=
          Report.accounts_same (fun kind => by cases kind <;> rfl) rfl
        exact planned.trans decided
      · cases (Prod.mk.inj h).1
    | error cause =>
      simp only [continueWith, valid, Reconciliation.load_new, loads, Except.map, Bool.not_true,
        Bool.false_eq_true, if_false] at h
      cases cause with
      | corrupt path cause =>
        obtain ⟨same, -⟩ := Prod.mk.inj h
        obtain rfl := Except.ok.inj same
        exact (Report.accounts_inputErrors _ _).addStep ..
      | failure f =>
        obtain ⟨same, -⟩ := Prod.mk.inj h
        obtain rfl := Except.ok.inj same
        exact (Report.accounts_ioErrors _ f).addStep ..
      | _ => cases (Prod.mk.inj h).1

/-- A run that ends with a report has accounted for its faults. -/
theorem accounts_of_reports (ran : Reports now options p report after faults) :
    Accounts faults (emptyReport options p) report := by
  cases ran with
  | ofSchema strict s ran => exact accounts_continueWith ran
  | ofFile path ran =>
    unfold generateFromFile at ran
    dsimp only at ran
    rw [fileFaults]
    cases loads : Schema.load p.disk path with
    | ok s =>
      rw [loads] at ran
      exact (Report.accounts_addStep ..).trans (accounts_continueWith ran)
    | error e =>
      rw [loads] at ran
      have input (message : String) : Accounts [.input message] (emptyReport options p)
          ({ emptyReport options p with inputErrors := [message] }.addStep "Load Schema File"
            false message) :=
        (Report.accounts_inputErrors _ message).addStep ..
      cases e with
      | notFound path =>
        obtain ⟨same, -⟩ := Prod.mk.inj ran
        obtain rfl := Except.ok.inj same
        exact input _
      | invalid path error =>
        obtain ⟨same, -⟩ := Prod.mk.inj ran
        obtain rfl := Except.ok.inj same
        exact input _
      | build error => cases (Prod.mk.inj ran).1
      | interrupted cause =>
        cases cause with
        | failure f =>
          obtain ⟨same, -⟩ := Prod.mk.inj ran
          obtain rfl := Except.ok.inj same
          exact (Report.accounts_ioErrors _ f).addStep ..
        | _ => cases (Prod.mk.inj ran).1

/-- The report of every run tells of the faults of the run and of no others: each list of errors has
their messages, each failed file has its error in one of the lists, and the exit code is 0 exactly
when there are none. -/
theorem tells_of_reports (ran : Reports now options p report after faults) :
    Tells faults report := by
  have accounts := accounts_of_reports ran
  have errors (kind : Fault.Kind) : report.errors kind = Fault.messages kind faults := by
    have grown := accounts.errors kind
    cases kind <;> exact grown
  have failed : ∀ file ∈ report.failed, ∃ error, file.error = some error ∧
      (error ∈ report.generationErrors ∨ error ∈ report.ioErrors) := by
    intro file mem
    obtain ⟨isIn, error, told⟩ := Report.mem_failed.1 mem
    obtain ⟨results, files, each⟩ := accounts.files
    have new : file ∈ results := by rwa [files] at isIn
    refine ⟨error, told, ?_⟩
    have listed := each file new error told
    rwa [← errors .driver, ← errors .io] at listed
  have success : report.exitCode = 0 ↔ faults = [] := by
    rw [Report.exitCode_eq_zero_iff, Report.isSuccess_iff]
    constructor
    · rintro ⟨absent, -⟩
      exact Fault.eq_nil_of_messages fun kind => (errors kind).symm.trans (absent kind)
    · rintro rfl
      have driver : report.generationErrors = [] := errors .driver
      have io : report.ioErrors = [] := errors .io
      refine ⟨errors, List.eq_nil_iff_forall_not_mem.2 fun file mem => ?_⟩
      obtain ⟨error, -, listed | listed⟩ := failed file mem
      · exact List.not_mem_nil (driver ▸ listed)
      · exact List.not_mem_nil (io ▸ listed)
  refine ⟨errors, success, failed, fun code => ?_, fun code absent => ?_⟩
  · obtain ⟨message, listed⟩ :=
      List.exists_mem_of_ne_nil _ (Report.generationErrors_of_exitCode code)
    have listed : message ∈ report.errors .driver := listed
    rw [errors] at listed
    obtain ⟨fault, mem, kind, -⟩ := Fault.mem_messages.1 listed
    cases fault with
    | driver path error => exact ⟨path, error, mem⟩
    | _ => cases kind
  · -- then nothing is listed, so a file has failed, and its error is listed
    obtain ⟨failure, input, violation, driver⟩ := Report.lists_of_exitCode code
    have lists (kind : Fault.Kind) : report.errors kind = [] := by cases kind <;> assumption
    have fine : report.failed = [] := by
      refine List.eq_nil_iff_forall_not_mem.2 fun file mem => ?_
      obtain ⟨error, -, listed | listed⟩ := failed file mem
      · exact List.not_mem_nil (driver ▸ listed)
      · exact List.not_mem_nil (absent ▸ listed)
    rw [Report.isSuccess_iff.2 ⟨lists, fine⟩] at failure
    cases failure

/-- A schema of one model with a greatest length that no driver can read. -/
def overlongSchema : Schema :=
  match Schema.build [("meta", .object []), ("models", .object [("Tag", .object [("fields",
    .object [("label", .string "string|max:²")])])])] with
  | .ok s => s
  | .error _ => Manifest.noSchema

def modelsAndMigrations : Options := { only := [.models, .migrations], writeEnv := false }

/-- The migration of that model. -/
def overlongMigration : String := "database/migrations/2024_01_01_120000_create_tags_table.php"

/-- Where the model cannot be written either, a run has one fault of each of these kinds. -/
def overlongFaults : List Fault := [.io refusedModel, .driver overlongMigration (.notAnInteger "²")]

theorem checked_overlongSchema :
    schemaFaults noon modelsAndMigrations overlongSchema closedModel
      (emptyReport modelsAndMigrations closedModel) = overlongFaults ∧
      succeeds (generate noon modelsAndMigrations true overlongSchema closedModel).1
        (·.exitCode == 2) = true := by
  decide +kernel

/-- The exit code tells of the driver, and the error of each file is listed. -/
theorem tells_of_reports_overlongSchema : ∃ report after,
    Reports noon modelsAndMigrations closedModel report after overlongFaults ∧ report.exitCode = 2 ∧
    Tells overlongFaults report := by
  obtain ⟨same, ended⟩ := checked_overlongSchema
  obtain ⟨report, ran, code⟩ := succeeds_eq_true.1 ended
  have reports := Reports.ofSchema true overlongSchema (Prod.fst_eq_iff.1 ran)
  rw [same] at reports
  exact ⟨report, _, reports, beq_iff_eq.1 code, tells_of_reports reports⟩

end Generation
end Scaffold
