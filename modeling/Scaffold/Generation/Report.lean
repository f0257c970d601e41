import Scaffold.Reconciliation

/-!
# Reports of a run

What a run did, step by step and file by file, and what went wrong.
-/

namespace Scaffold
set_option autoImplicit false

/-- What a run did with a file. -/
inductive FileAction where
  | created
  | overwritten
  | merged
  | appended
  | skipped
  | deleted
  deriving DecidableEq, Repr

namespace FileAction

def name : FileAction → String
  | created => "created"
  | overwritten => "overwritten"
  | merged => "merged"
  | appended => "appended"
  | skipped => "skipped"
  | deleted => "deleted"

/-- Whether the action leaves a file with new content. -/
def writes : FileAction → Bool
  | created | overwritten | merged | appended => true
  | skipped | deleted => false

end FileAction

/-- The outcome for one file. -/
structure FileResult where
  kind : String
  path : String
  action : FileAction
  error : Option String := none
  deriving DecidableEq, Repr

def FileResult.isSuccess (r : FileResult) : Bool := r.error.isNone

/-- The outcome of one step. -/
structure StepResult where
  name : String
  success : Bool
  detail : String
  deriving DecidableEq, Repr

structure Report where
  project : String := ""
  root : String := ""
  mode : Mode := .clean
  schemaChanged : Bool := false
  unchanged : Bool := false
  steps : List StepResult := []
  validationErrors : List String := []
  validationWarnings : List String := []
  generationErrors : List String := []
  ioErrors : List String := []
  inputErrors : List String := []
  files : List FileResult := []
  plan : Option Plan := none
  historyEntry : Option String := none

namespace Report

/-- The files that could not be dealt with. -/
def failed (r : Report) : List FileResult := r.files.filter (!·.isSuccess)

def isSuccess (r : Report) : Bool :=
  r.inputErrors.isEmpty && r.validationErrors.isEmpty && r.generationErrors.isEmpty &&
    r.ioErrors.isEmpty && r.failed.isEmpty

def addStep (r : Report) (name : String) (success : Bool) (detail : String) : Report :=
  { r with steps := r.steps ++ [⟨name, success, detail⟩] }

/-- The report with a file that was dealt with. -/
def addFile (r : Report) (kind path : String) (action : FileAction) : Report :=
  { r with files := r.files ++ [⟨kind, path, action, none⟩] }

/-- The report with a file on which an operation failed. -/
def addIOFailure (r : Report) (kind path : String) (action : FileAction) (f : IOFailure) : Report :=
  { r with
    ioErrors := r.ioErrors ++ [f.message]
    files := r.files ++ [⟨kind, path, action, some f.message⟩] }

/-- The report with a file whose content could not be made. -/
def addRenderFailure (r : Report) (kind path : String) (action : FileAction)
    (e : Text.NumeralError) : Report :=
  let message := path ++ ": ValueError: " ++ e.message
  { r with generationErrors := r.generationErrors ++ [message]
           files := r.files ++ [⟨kind, path, action, some message⟩] }

/-- The exit code of a program that made the report. -/
def exitCode (r : Report) : Nat :=
  if r.isSuccess then 0
  else if !r.inputErrors.isEmpty then 4
  else if !r.validationErrors.isEmpty then 1
  else if !r.generationErrors.isEmpty then 2
  else 3

/-! The summary -/

def width : Nat := 60

def thickRule : String := Text.repeated '=' width

def thinRule : String := Text.repeated '─' width

/-- A duration, which reports do not measure. -/
def duration : String := "0.000s"

/-- How a measured piece of work shows; its duration is not measured. -/
def stopwatch (label : String) : String := "<Timer " ++ label ++ ": 0.0000s>"

/-- How many files an action succeeded on. -/
def countOf (r : Report) (action : FileAction) : String :=
  toString (r.files.countP fun f => f.isSuccess && f.action = action)

def headLines (r : Report) : List String :=
  [thickRule, "  laragen — Generation Report", thickRule,
    "  Status:           " ++ (if r.isSuccess then "✅ SUCCESS" else "❌ FAILED"),
    "  Project:          " ++ r.project,
    "  Project root:     " ++ r.root,
    "  Mode:             " ++ r.mode.name,
    "  Schema:           " ++ (if r.schemaChanged then "changed" else "unchanged"),
    "  Files written:    " ++ toString (r.files.countP fun f => f.isSuccess && f.action.writes),
    "  Files skipped:    " ++ r.countOf .skipped,
    "  Files deleted:    " ++ r.countOf .deleted,
    "  Total time:       " ++ duration,
    thinRule]

def stepLine (s : StepResult) : String :=
  "    " ++ (if s.success then "✓" else "✗") ++ " " ++ Text.padRight 28 s.name ++ " " ++
    Text.padLeft ' ' 8 duration ++ "  " ++ s.detail

def stepLines (r : Report) : List String :=
  if r.steps.isEmpty then [] else "  Pipeline Steps:" :: r.steps.map stepLine

def unchangedLines (r : Report) : List String :=
  if r.unchanged then [thinRule, "  Schema unchanged; nothing to do (use --force to regenerate)."]
  else []

/-- What a preview would do. -/
def planLines (r : Report) : List String :=
  match r.mode, r.plan with
  | .preview, some plan =>
    [thinRule, "  Required Artifacts (" ++ toString plan.required.length ++ "):"] ++
      plan.required.map ("    • " ++ ·) ++
    ["  Would Clean Up (" ++ toString plan.cleanup.length ++ "):"] ++ plan.cleanup.map
      ("    ⊘ " ++ ·)
  | _, _ => []

/-- A list of messages under a title, if there are any. -/
def messageLines (title sign : String) (messages : List String) : List String :=
  if messages.isEmpty then []
  else [thinRule, "  " ++ title ++ " (" ++ toString messages.length ++ "):"] ++
    messages.map fun m => "    " ++ sign ++ " " ++ m

/-- The report for people. -/
def summary (r : Report) : String :=
  Text.unlines (r.headLines ++ r.stepLines ++ r.unchangedLines ++ r.planLines ++
    messageLines "Input Errors" "✗" r.inputErrors ++
    messageLines "Validation Errors" "✗" r.validationErrors ++
    messageLines "Validation Warnings" "⚠" r.validationWarnings ++
    messageLines "Generation Errors" "✗" r.generationErrors ++
    messageLines "I/O Errors" "✗" r.ioErrors ++ [thickRule])

end Report
end Scaffold
