import Scaffold.Generation
import Scaffold.Proofs.Reconciliation.Requests

/-!
# Runs up to their plan

A run checks the schema, loads the manifest and makes its plan. `Generation.opens_continueWith` says
how it can end before it has a plan, and `Generation.decided` is what it comes to once it has one.
-/

namespace Scaffold
set_option autoImplicit false

namespace Reconciliation

/-- The reconciliation of a run that has made its plan. -/
def planned (options : Options) (s : Schema) (m : Manifest) : Reconciliation :=
  { mode := options.mode, state := .diffed, manifest? := some m, schema? := some s
    plan? := some (Plan.of options.mode m s) }

/-- A new reconciliation loads what its store gives. -/
theorem load_new (mode : Mode) (p : Project) : ({ mode := mode } : Reconciliation).load p =
    (({} : Store).load p).map fun m =>
      (m, { mode := mode, state := .loaded, manifest? := some m }) := by
  simp only [Reconciliation.load, expect, if_true, bind, Except.bind]
  cases ({} : Store).load p <;> rfl

/-- A document that cannot be printed has no digest, so no plan is made. -/
theorem diff_loaded (options : Options) (s : Schema) (m : Manifest) :
    diff { mode := options.mode, state := .loaded, manifest? := some m } s =
      if (Json.object s.document).isPrintable then .ok (Plan.of options.mode m s,
        planned options s m)
      else .error (.numeral .unwritable) := by
  simp only [diff, expect, manifest, known, if_true, bind, Except.bind]
  cases (Json.object s.document).isPrintable <;> rfl

end Reconciliation

namespace Run

/-- A run that is about to change a project: the manifest is loaded and the plan is made. -/
def planned (options : Options) (s : Schema) (p : Project) (m : Manifest)
    (report : Report) : Run where
  project := p
  reconciliation :=
    { mode := options.mode, state := .diffed, manifest? := some m, schema? := some s
      plan? := some (Plan.of options.mode m s) }
  report := report

end Run

namespace Generation

variable {now : Moment} {options : Options} {s : Schema} {p after : Project} {m : Manifest}
  {report start : Report}

/-- What a run comes to that was applied to a project. -/
def ended : Run.Outcome → Except Stop Report × Project
  | (.ok (), run) => (.ok run.report, run.project)
  | (.error cause, run) => (.error (.interrupted cause), run.project)

theorem project_ended (result : Run.Outcome) : (ended result).2 = result.2.project := by
  obtain ⟨_ | _, run⟩ := result <;> rfl

theorem ended_eq_ok {result : Run.Outcome} (h : ended result = (.ok report, after)) :
    ∃ run, result = (.ok (), run) ∧ run.report = report ∧ run.project = after := by
  obtain ⟨outcome, run⟩ := result
  cases outcome with
  | error cause => cases (Prod.mk.inj h).1
  | ok _ =>
    obtain ⟨same, left⟩ := Prod.mk.inj h
    exact ⟨run, rfl, Except.ok.inj same, left⟩

/-- What a run comes to from its plan: a preview ends there, and so does a run for which nothing has
changed. -/
def decided (now : Moment) (options : Options) (s : Schema) (p : Project) (m : Manifest)
    (begun : Report) : Except Stop Report × Project :=
  if options.mode = .preview then (.ok begun, p)
  else if !m.differsFrom s && !options.force then (.ok { begun with unchanged := true }, p)
  else ended (Run.apply now options s (Run.planned options s p m begun))

/-- A run that is no preview rests at its plan, where nothing has changed, or it is applied. -/
theorem decided_eq_ok (acts : options.mode ≠ .preview)
    (h : decided now options s p m start = (.ok report, after)) :
    (m.differsFrom s = false ∧ options.force = false ∧
      report = { start with unchanged := true } ∧ after = p) ∨
    ∃ run, Run.apply now options s (Run.planned options s p m start) = (.ok (), run) ∧
    run.report = report ∧
      run.project = after := by
  rw [decided, if_neg acts] at h
  split at h
  · rename_i same
    simp only [Bool.and_eq_true, Bool.not_eq_true'] at same
    obtain ⟨reported, left⟩ := Prod.mk.inj h
    exact .inl ⟨same.1, same.2, (Except.ok.inj reported).symm, left.symm⟩
  · exact .inr (ended_eq_ok h)

/-- Going on from a loaded manifest, a run makes its plan unless the document of the schema cannot
be printed. -/
theorem proceed_eq (start : Report) :
    proceed now options s p { mode := options.mode, state := .loaded, manifest? := some m } start =
      if (Json.object s.document).isPrintable then
        decided now options s p m (reportPlan (Plan.of options.mode m s) start)
      else (.error (.interrupted (.numeral .unwritable)), p) := by
  unfold proceed
  rw [Reconciliation.diff_loaded]
  cases (Json.object s.document).isPrintable <;> rfl

/-- The report at the plan of a run. -/
def begun (options : Options) (s : Schema) (m : Manifest) (start : Report) : Report :=
  reportPlan (Plan.of options.mode m s)
    ((reportFindings s.findings { start with project := s.project }).addStep
      "Load Manifest" true (toString m.count ++ " tracked file(s)"))

theorem continueWith_eq {strict : Bool} (start : Report) (valid : s.findings.isValid = true)
    (loads : ({} : Store).load p = .ok m) : continueWith now options strict s p start =
      if (Json.object s.document).isPrintable then decided now options s p m
        (begun options s m start)
      else (.error (.interrupted (.numeral .unwritable)), p) := by
  unfold continueWith
  simp only [valid, Reconciliation.load_new, loads, Except.map, Bool.not_true,
    Bool.false_eq_true, if_false]
  exact proceed_eq _

/-- A run that is no preview is applied when its schema is another one, or when it is forced. -/
theorem continueWith_eq_ended {strict : Bool} (start : Report) (valid : s.findings.isValid = true)
    (printable : (Json.object s.document).isPrintable = true) (loads : ({} : Store).load p = .ok m)
    (acts : options.mode ≠ .preview) (due : (options.force || m.differsFrom s) = true) :
    continueWith now options strict s p start =
      ended (Run.apply now options s (Run.planned options s p m (begun options s m start))) := by
  have changes : (!m.differsFrom s && !options.force) = false := by
    rw [← Bool.not_or, Bool.or_comm, due, Bool.not_true]
  rw [continueWith_eq start valid loads, if_pos printable, decided, if_neg acts, changes,
    if_neg Bool.false_ne_true]

/-- A report from which nothing speaks against a run. -/
structure IsPlain (report : Report) : Prop where
  noInput : report.inputErrors = []
  noErrors : report.validationErrors = []
  acts : report.unchanged = false

theorem IsPlain.begun (plain : IsPlain start) (valid : s.findings.isValid = true) :
    IsPlain (begun options s m start) := by
  have errors : s.findings.errors = [] := by simpa [Findings.isValid] using valid
  exact ⟨plain.noInput,
    by simp [Generation.begun, reportPlan, reportFindings, Report.addStep, errors, plain.noErrors],
    plain.acts⟩

/-- How a run opens: it is stopped, or it ends with a report of failure that has nothing new but
that failure, or it comes to its plan. -/
inductive Opens (now : Moment) (options : Options) (s : Schema) (p : Project) (start : Report)
    (result : Except Stop Report × Project) : Prop where
  | stopped (cause : Stop) (eq : result = (.error cause, p))
  | refused (report : Report) (eq : result = (.ok report, p)) (fails : report.isSuccess = false)
      (plan : report.plan = start.plan) (files : report.files = start.files)
      (unchanged : report.unchanged = start.unchanged)
  | planned (m : Manifest) (valid : s.findings.isValid = true) (loads : ({} : Store).load p = .ok m)
      (printable : (Json.object s.document).isPrintable = true)
      (eq : result = decided now options s p m (begun options s m start))

theorem opens_continueWith {strict : Bool} {result : Except Stop Report × Project}
    (h : continueWith now options strict s p start = result) :
    Opens now options s p start result := by
  subst h
  cases valid : s.findings.isValid with
  | false =>
    have failed : s.findings.errors ≠ [] := by simpa [Findings.isValid] using valid
    simp only [continueWith, valid, Bool.not_false, if_true]
    cases strict with
    | true => exact .stopped _ rfl
    | false =>
      exact .refused _ rfl (by simp [Report.isSuccess, reportFindings, Report.addStep, failed])
        rfl rfl rfl
  | true =>
    cases loads : ({} : Store).load p with
    | ok m =>
      rw [continueWith_eq start valid loads]
      split
      · rename_i printable
        exact .planned m valid loads printable rfl
      · exact .stopped _ rfl
    | error cause =>
      simp only [continueWith, valid, Reconciliation.load_new, loads, Except.map, Bool.not_true,
        Bool.false_eq_true, if_false]
      cases cause with
      | corrupt => exact .refused _ rfl (by simp [Report.isSuccess, Report.addStep]) rfl rfl rfl
      | failure => exact .refused _ rfl (by simp [Report.isSuccess, Report.addStep]) rfl rfl rfl
      | _ => exact .stopped _ rfl

end Generation
end Scaffold
