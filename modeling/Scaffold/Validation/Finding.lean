import Scaffold.Json

/-!
# Findings

What a check has to say, with a level, a code, a message and the places it concerns, and the
report that lists findings in the order in which they came.
-/

namespace Scaffold
set_option autoImplicit false

inductive Level where
  | error
  | warning
  | info
  deriving DecidableEq, Repr

namespace Level

def name : Level → String
  | error => "error"
  | warning => "warning"
  | info => "info"

/-- The name in capitals. -/
def capitals : Level → String
  | error => "ERROR"
  | warning => "WARNING"
  | info => "INFO"

/-- The sign in front of a finding in a report. -/
def sign : Level → String
  | error => "❌"
  | warning => "⚠️"
  | info => "ℹ️"

end Level

structure Finding where
  level : Level
  code : String
  message : String
  context : Json.Members := []

/-- One line with level, code and message. -/
def Finding.shown (f : Finding) : String :=
  "[" ++ f.level.capitals ++ "] " ++ f.code ++ ": " ++ f.message

/-- Findings in the order in which they came. -/
abbrev Findings := List Finding

namespace Findings

def ofLevel (findings : Findings) (level : Level) : Findings := findings.filter (·.level == level)

def errors (findings : Findings) : Findings := findings.ofLevel .error

def warnings (findings : Findings) : Findings := findings.ofLevel .warning

/-- Whether nothing found is an error. -/
def isValid (findings : Findings) : Bool := findings.errors.isEmpty

def summary (findings : Findings) : String :=
  "Validation: " ++ toString findings.errors.length ++ " error(s), " ++
    toString findings.warnings.length ++ " warning(s), " ++ toString findings.length ++
      " total item(s)."

/-- How findings show in a report. -/
def shown (findings : Findings) : String := "<ValidationResult " ++ findings.summary ++ ">"

/-- The lines about one finding. -/
def itemLines (f : Finding) : List String :=
  ("  " ++ f.level.sign ++ " [" ++ f.code ++ "] " ++ f.message) ::
    f.context.map fun (key, value) => "       " ++ key ++ ": " ++ value.plain

/-- The whole report, with or without what is only informative. -/
def report (findings : Findings) (withInfo : Bool) : String :=
  let listed := findings.filter fun f => withInfo || f.level != .info
  Text.unlines (findings.summary :: "" :: listed.flatMap itemLines)

end Findings
end Scaffold
