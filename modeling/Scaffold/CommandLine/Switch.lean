import Scaffold.Text
import Scaffold.Text.Quoted

/-!
# Switches and grammars

What can be said on the command line: the switches with their spellings, and for each command which
switches it knows and what its operand is called.
-/

namespace Scaffold.CommandLine
set_option autoImplicit false

inductive Switch where
  | help
  | version
  | projectRoot
  | clean
  | merge
  | preview
  | dryRun
  | only
  | force
  | noEnv
  | verbose
  | quiet
  deriving DecidableEq, Repr

namespace Switch

def spellings : Switch → List String
  | help => ["-h", "--help"]
  | version => ["--version"]
  | projectRoot => ["-p", "--project-root"]
  | clean => ["--clean"]
  | merge => ["--merge"]
  | preview => ["--preview"]
  | dryRun => ["--dry-run"]
  | only => ["--only"]
  | force => ["--force"]
  | noEnv => ["--no-env"]
  | verbose => ["-v", "--verbose"]
  | quiet => ["-q", "--quiet"]

/-- Whether a value belongs to the switch. -/
def takesValue : Switch → Bool
  | projectRoot | only => true
  | _ => false

/-- How messages name the switch. -/
def label (s : Switch) : String := Text.join "/" s.spellings

end Switch

/-- What can follow the name of a program or of a command. -/
structure Grammar where
  /-- The name that messages begin with. -/
  program : String
  /-- The lines that show the usage. -/
  usage : List String
  /-- The lines of the help after the usage. -/
  help : List String
  switches : List Switch
  /-- What the operand is called. -/
  operand : String
  /-- The operand takes all words that follow it. -/
  takesRest : Bool

namespace Grammar

/-- Every spelling with its switch, in order. -/
def spellings (g : Grammar) : List (String × Switch) :=
  g.switches.flatMap fun s => s.spellings.map fun text => (text, s)

def switch? (g : Grammar) (spelling : String) : Option Switch := g.spellings.lookup spelling

/-- The program as a whole: its operand is a command. -/
def whole : Grammar where
  program := "laragen"
  usage := ["usage: laragen [-h] [--version] COMMAND ..."]
  help :=
    ["laragen — schema-driven Laravel code generator.", "",
      "Turns a JSON schema of entities, fields, relations, routes, policies and observers into models, " ++
        "migrations, controllers, routes, factories, seeders, policies and observers, and keeps them in " ++
        "step with the schema across runs.", "",
      "positional arguments:", "  COMMAND",
      "    generate  Generate Laravel files from a schema.",
      "    validate  Validate a schema without generating anything.", "",
      "options:", "  -h, --help  show this help message and exit",
      "  --version   show program's version number and exit", "",
      "Examples:", "  laragen generate schema.json --project-root ./my-app",
      "  laragen generate schema.json --merge --only models,routes",
      "  laragen generate schema.json --preview", "  laragen validate schema.json"]
  switches := [.help, .version]
  operand := "COMMAND"
  takesRest := true

def generate : Grammar where
  program := "laragen generate"
  usage :=
    ["usage: laragen generate [-h] [-p DIR] [--clean] [--merge] [--preview]",
      "                        [--dry-run] [--only KINDS] [--force] [--no-env] [-v]",
      "                        [-q]", "                        SCHEMA"]
  help :=
    ["Generate Laravel files from a schema and update the manifest.", "",
      "positional arguments:", "  SCHEMA                Path to the JSON schema file.", "",
      "options:", "  -h, --help            show this help message and exit",
      "  -p DIR, --project-root DIR",
      "                        Root of the Laravel project (default: current",
      "                        directory).", "",
      "operation modes:", "  --clean               Delete obsolete files and regenerate everything",
      "                        (default).",
      "  --merge               Keep existing files; merge generated sections into",
      "                        routes and seeders.",
      "  --preview             Report required and obsolete files without writing",
      "                        anything.", "  --dry-run             Alias of --preview.", "",
      "behaviour flags:", "  --only KINDS          Comma-separated components to generate: models,",
      "                        migrations, controllers, routes, factories, seeders,",
      "                        policies, observers, auth, providers.",
      "  --force               Regenerate even when the schema is unchanged.",
      "  --no-env              Do not update the project's .env file.", "",
      "verbosity:", "  -v, --verbose         Increase verbosity (-v for INFO, -vv for DEBUG).",
      "  -q, --quiet           Suppress all log output."]
  switches :=
    [.help, .projectRoot, .clean, .merge, .preview, .dryRun, .only, .force, .noEnv,
      .verbose, .quiet]
  operand := "SCHEMA"
  takesRest := false

def validate : Grammar where
  program := "laragen validate"
  usage := ["usage: laragen validate [-h] [-v] [-q] SCHEMA"]
  help :=
    ["Validate a schema and print the error and warning report.", "",
      "positional arguments:", "  SCHEMA         Path to the JSON schema file.", "",
      "options:", "  -h, --help     show this help message and exit", "",
      "verbosity:", "  -v, --verbose  Increase verbosity (-v for INFO, -vv for DEBUG).",
      "  -q, --quiet    Suppress all log output."]
  switches := [.help, .verbose, .quiet]
  operand := "SCHEMA"
  takesRest := false

/-- The text that shows the usage. -/
def usageText (g : Grammar) : String := Text.unlines (g.usage ++ [""])

def helpText (g : Grammar) : String := Text.unlines (g.usage ++ [""] ++ g.help ++ [""])

end Grammar

/-- How a command line is misused. -/
inductive Misuse where
  | ambiguous (word : String) (spellings : List String)
  | unusedValue (s : Switch) (value : String)
  | missingValue (s : Switch)
  | missingOperand (name : String)
  | unknownCommand (word : String)
  | unrecognized (words : List String)
  deriving DecidableEq, Repr

def Misuse.message : Misuse → String
  | ambiguous word spellings =>
    "ambiguous option: " ++ word ++ " could match " ++ Text.join ", " spellings
  | unusedValue s value =>
    "argument " ++ s.label ++ ": ignored explicit argument " ++ Text.quoted value
  | missingValue s => "argument " ++ s.label ++ ": expected one argument"
  | missingOperand name => "the following arguments are required: " ++ name
  | unknownCommand word =>
    "argument COMMAND: invalid choice: " ++ Text.quoted word ++
      " (choose from 'generate', 'validate')"
  | unrecognized words => "unrecognized arguments: " ++ Text.join " " words

/-- What ends the reading of a command line before its end. -/
inductive Halt where
  | help (g : Grammar)
  | version
  | misuse (g : Grammar) (error : Misuse)

end Scaffold.CommandLine
