import Scaffold.CommandLine.Reading
import Scaffold.Generation.Options

/-!
# Commands

What a command line asks for: to generate a project from a schema, or to check a schema.
-/

namespace Scaffold.CommandLine
set_option autoImplicit false

/-- What is to be done. A project may be given without a directory. -/
inductive Command where
  | generate (schema : String) (root : Option String) (options : Options)
  | validate (schema : String)

namespace Parsed

def has (p : Parsed) (s : Switch) : Bool := p.switches.any (·.1 = s)

/-- The value of a switch, of several the last. -/
def value? (p : Parsed) (s : Switch) : Option String := p.switches.reverse.lookup s

/-- The options of a run that the switches give. -/
def options (p : Parsed) : Options where
  mode := .ofWishes (p.has .merge) (p.has .preview || p.has .dryRun)
  only := Component.ofText ((p.value? .only).getD "")
  force := p.has .force
  writeEnv := !p.has .noEnv

/-- The directory of the project: the one that is given, or else the one where the program runs.
Two hyphens are no value, they only separate. -/
def root (p : Parsed) : Option String :=
  match p.value? .projectRoot with
  | some value => if value = "--" then none else some value
  | none => some "."

end Parsed

namespace Command

/-- The command that a word names, with the words that it is given. -/
def ofName : String → List String → Except Halt (Command × Parsed)
  | "generate", words => do
    let (schema, p) ← readWords .generate words
    return (.generate (schema.headD "") p.root p.options, p)
  | "validate", words => do
    let (schema, p) ← readWords .validate words
    return (.validate (schema.headD ""), p)
  | name, _ => .error (.misuse .whole (.unknownCommand name))

/-- The command of a command line. No word may be left over. -/
def ofWords (words : List String) : Except Halt Command := do
  let (operand, before) ← readWords .whole words
  let (command, after) ← ofName (operand.headD "") operand.tail
  match before.extras ++ after.extras with
  | [] => return command
  | extras => throw (.misuse .whole (.unrecognized extras))

end Command
end Scaffold.CommandLine
