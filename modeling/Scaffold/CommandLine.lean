import Scaffold.CommandLine.Command
import Scaffold.Generation

/-!
# The command line

A command line is read, carried out on a disk, and answered with texts on two streams and an exit
code: 0 for success, 1 for an invalid schema, 2 for a misuse or a file that could not be made, 3 for
a disk that failed, and 4 for input that cannot be read.
-/

namespace Scaffold.CommandLine
set_option autoImplicit false

/-- What a program answers. -/
structure Reply where
  exit : Nat
  output : String := ""
  errors : String := ""
  deriving DecidableEq, Repr

/-- The version that the program shows. -/
def versionText : String := "laragen v" ++ Manifest.currentGenerator

/-- The answer to a command line that is not carried out. -/
def Halt.reply : Halt → Reply
  | help g => { exit := 0, output := g.helpText }
  | version => { exit := 0, output := versionText ++ "\n" }
  | misuse g e =>
    { exit := 2, errors := g.usageText ++ g.program ++ ": error: " ++ e.message ++ "\n" }

/-! Checking a schema -/

def rule : String := Text.repeated '=' 50

/-- Findings under a title with their number, if there are any. -/
def findingLines (title sign : String) (found : Findings) : List String :=
  if found.isEmpty then []
  else "" :: ("  " ++ title ++ " (" ++ toString found.length ++ "):") ::
    found.map fun f => "    " ++ sign ++ " " ++ f.shown

/-- The report on a schema in a file of some name. -/
def checkReport (name : String) (s : Schema) : String :=
  let found := s.findings
  Text.unlines (["", rule, "  Schema Validation Report", rule,
      "  File:     " ++ name,
      "  Project:  " ++ s.project,
      "  Entities: " ++ toString s.entities.size,
      "  Pivots:   " ++ toString s.pivots.size,
      "  Time:     " ++ Report.duration,
      "  Valid:    " ++ (if found.isValid then "Yes" else "No")] ++
    findingLines "Errors" "✗" found.errors ++
    findingLines "Warnings" "⚠" found.warnings ++
    (if found.isValid && found.warnings.isEmpty then ["", "  ✅ All validations passed!"] else []) ++
    [rule, "", ""])

/-- The answer to a schema that could not be loaded. -/
def refusal (exit : Nat) (message : String) : Reply := { exit, errors := "✗ " ++ message ++ "\n" }

/-- Checks the schema in a file. -/
def check (path : Path) (disk : Disk) : Except Generation.Stop Reply :=
  match Schema.load disk path with
  | .ok s =>
    .ok { exit := if s.findings.isValid then 0 else 1, output := checkReport path.name s }
  | .error (.interrupted (.failure f)) => .ok (refusal 3 f.message)
  | .error (.interrupted e) => .error (.interrupted e)
  | .error (.build e) => .error (.build e)
  | .error e => .ok (refusal 4 e.message)

/-! Carrying out -/

/-- The absolute path that a text spells. -/
def absolutePath (disk : Disk) (text : String) : Except Generation.Stop Path :=
  if Text.hasChar '\x00' text then .error (.interrupted (.disk .nullCharacter))
  else .ok (Path.ofText (disk.absoluteText (Path.ofText text)))

/-- Generates the project in a directory. What stands there has to be a directory. -/
def generateIn (now : Moment) (schema root : Path) (options : Options) (disk : Disk) :
    Except Generation.Stop Reply × Disk :=
  match disk.status root with
  | .error e => (.error (.interrupted (.disk e)), disk)
  | .ok (some (.file _)) => (.ok { exit := 4 }, disk)
  | .ok _ =>
    match Generation.generateFromFile now options schema { disk, root } with
    | (.ok report, project) =>
      (.ok { exit := report.exitCode, output := report.summary ++ "\n" }, project.disk)
    | (.error e, project) => (.error e, project.disk)

/-- Carries out a command. -/
def Command.execute (now : Moment) (disk : Disk) : Command → Except Generation.Stop Reply × Disk
  | validate schema =>
    (do check (← absolutePath disk schema) disk, disk)
  | generate schema root options =>
    match absolutePath disk schema, root.mapM (absolutePath disk) with
    | .ok schema, .ok (some root) => generateIn now schema root options disk
    | .ok _, .ok none => (.error .noDirectory, disk)
    | .error e, _ => (.error e, disk)
    | _, .error e => (.error e, disk)

/-- Answers a command line. -/
def run (now : Moment) (words : List String) (disk : Disk) : Except Generation.Stop Reply × Disk :=
  match Command.ofWords words with
  | .ok command => command.execute now disk
  | .error halt => (.ok halt.reply, disk)

end Scaffold.CommandLine
