import Scaffold.CommandLine.Switch
import Scaffold.Text.Digit

/-!
# Reading a command line

The words after a program's name are told apart as switches and operands, and then taken in order.
Long switches may be shortened as long as one fits; short ones without a value may stand together.
-/

namespace Scaffold.CommandLine
set_option autoImplicit false

/-- What a word is. A switch comes with the spelling that it stands for and the characters that are
written to it, after an equals sign or right behind a short spelling. -/
inductive Word where
  | operand
  | separator
  | switch (s : Switch) (spelling : String) (attached : Option (List Char))
  | unknown

namespace Word

def isSwitch : Word → Bool
  | switch .. | unknown => true
  | _ => false

def isSeparator : Word → Bool
  | separator => true
  | _ => false

end Word

/-- A word with its text. -/
abbrev Token := Word × String

/-- Whether characters are digits, at least `least` of them, with nothing after them but perhaps a
line feed. -/
def areDigits (least : Nat) (chars : List Char) : Bool :=
  let digits := chars.takeWhile Text.isDecimalDigit
  let rest := chars.dropWhile Text.isDecimalDigit
  least ≤ digits.length && (rest == [] || rest == ['\n'])

/-- Whether a word is a negative number. -/
def isNegativeNumber : List Char → Bool
  | '-' :: digits =>
    areDigits 1 digits ||
      match Chars.cut? '.' digits with
      | some (whole, fraction) => whole.all Text.isDecimalDigit && areDigits 1 fraction
      | none => false
  | _ => false

/-- The switches that a word may mean which is no spelling itself, nor has one before an equals
sign: those with a long spelling that it shortens, or the short one that it has more behind. -/
def candidates (g : Grammar) (word : String) : List (Switch × String × Option (List Char)) :=
  if Text.startsWith "--" word then
    let (head, attached) :=
      match Text.cut? '=' word with
      | some (head, value) => (head, some value.toList)
      | none => (word, none)
    (g.spellings.filter fun (spelling, _) => Text.startsWith head spelling).map fun (spelling, s) =>
      (s, spelling, attached)
  else
    let short := String.ofList (word.toList.take 2)
    (g.switch? short).toList.map fun s => (s, short, some (word.toList.drop 2))

/-- What a word means that begins with a hyphen and is no spelling. -/
def wordOfDashed (g : Grammar) (word : String) : Except Misuse Word :=
  match (Text.cut? '=' word).bind fun (head, value) => (g.switch? head).map fun s =>
      (s, head, value) with
  | some (s, head, value) => .ok (.switch s head (some value.toList))
  | none =>
    match candidates g word with
    | [(s, spelling, attached)] => .ok (.switch s spelling attached)
    | [] =>
      if isNegativeNumber word.toList || Text.hasChar ' ' word then .ok .operand else .ok .unknown
    | several => .error (.ambiguous word (several.map (·.2.1)))

/-- What a word means that is no separator. -/
def wordOf (g : Grammar) (word : String) : Except Misuse Word :=
  if !Text.startsWith "-" word || word = "-" then .ok .operand
  else
    match g.switch? word with
    | some s => .ok (.switch s word none)
    | none => wordOfDashed g word

/-- What each word means. All that follows a separator are operands. -/
def tokens (g : Grammar) : List String → Except Misuse (List Token)
  | [] => .ok []
  | word :: rest =>
    if word = "--" then .ok ((.separator, word) :: rest.map fun w => (.operand, w))
    else do
      let meaning ← wordOf g word
      let rest ← tokens g rest
      return (meaning, word) :: rest

/-- What a word with switches gives: those that need nothing more, and the one that waits for what
follows the word. -/
structure Cluster where
  given : List (Switch × String) := []
  waiting : Option Switch := none

/-- The cluster with a switch in front. -/
def Cluster.after (s : Switch) (c : Cluster) : Cluster := { c with given := (s, "") :: c.given }

/-- What a short switch gives with the characters behind it: its value, or further short switches,
of which the last may have a value behind it. -/
def clusterOf (g : Grammar) (s : Switch) : List Char → Except Misuse Cluster
  | [] => .ok { waiting := some s }
  | c :: rest =>
    if s.takesValue then .ok { given := [(s, String.ofList (c :: rest))] }
    else
      match g.switch? (String.ofList ['-', c]) with
      | some next => (clusterOf g next rest).map (Cluster.after s)
      | none => .error (.unusedValue s (String.ofList (c :: rest)))

/-- What a word with switches gives. -/
def cluster (g : Grammar) (s : Switch) (spelling : String) :
    Option (List Char) → Except Misuse Cluster
  | none => .ok { waiting := some s }
  | some attached =>
    if s.takesValue then .ok { given := [(s, String.ofList attached)] }
    else if Text.startsWith "--" spelling || attached.isEmpty then
      .error (.unusedValue s (String.ofList attached))
    else clusterOf g s attached

/-- What has been read: the switches with their values, the words of the operand, and the words
that are left over. -/
structure Parsed where
  switches : List (Switch × String) := []
  operand : Option (List String) := none
  extras : List String := []

namespace Parsed

/-- Takes a switch; help and version end the reading. -/
def take (g : Grammar) (p : Parsed) : Switch × String → Except Halt Parsed
  | (.help, _) => .error (.help g)
  | (.version, _) => .error .version
  | given => .ok { p with switches := p.switches ++ [given] }

def takeAll (g : Grammar) : List (Switch × String) → Parsed → Except Halt Parsed
  | [], p => .ok p
  | given :: rest, p => do takeAll g rest (← p.take g given)

end Parsed

/-- The operand at the start of the words with what follows it. Separators around it go with it;
an operand that takes the rest takes them too. -/
def operandAt? (g : Grammar) (words : List Token) :
    Option (List String × { rest : List Token // rest.length < words.length }) :=
  match h : words.dropWhile (·.1.isSeparator) with
  | (.operand, text) :: rest =>
    have shorter : rest.length < words.length := by
      have shorter := (words.dropWhile_sublist (·.1.isSeparator)).length_le
      rw [h] at shorter
      exact shorter
    if g.takesRest then some (words.map (·.2), ⟨[], Nat.zero_lt_of_lt shorter⟩)
    else some ([text], ⟨rest.dropWhile (·.1.isSeparator),
      Nat.lt_of_le_of_lt (List.dropWhile_sublist _).length_le shorter⟩)
  | _ => none

/-- The operand at the start of the words, unless one was read before. -/
def nextOperand? (g : Grammar) (p : Parsed) (words : List Token) :
    Option (List String × { rest : List Token // rest.length < words.length }) :=
  if p.operand.isSome then none else operandAt? g words

/-- Takes what a word with switches gives, with a value from the words that follow if one waits
for it. -/
def takeCluster (g : Grammar) (c : Cluster) (p : Parsed) (words : List Token) :
    Except Halt (Parsed × { rest : List Token // rest.length ≤ words.length }) :=
  match c.waiting with
  | none => (Parsed.takeAll g c.given p).map fun p => (p, ⟨words, Nat.le_refl _⟩)
  | some s =>
    if !s.takesValue then
      (Parsed.takeAll g (c.given ++ [(s, "")]) p).map fun p => (p, ⟨words, Nat.le_refl _⟩)
    else
      match words with
      | (.operand, text) :: rest =>
        (Parsed.takeAll g (c.given ++ [(s, text)]) p).map fun p => (p, ⟨rest, Nat.le_succ _⟩)
      | _ => .error (.misuse g (.missingValue s))

/-- Reads words in order. -/
def readTokens (g : Grammar) (p : Parsed) : List Token → Except Halt Parsed
  | [] => .ok p
  | (word, text) :: words =>
    if !((word, text) :: words).any (·.1.isSwitch) then
      match nextOperand? g p ((word, text) :: words) with
      | some (operand, ⟨rest, _⟩) =>
        .ok { p with operand := some operand, extras := p.extras ++ rest.map (·.2) }
      | none => .ok { p with extras := p.extras ++ text :: words.map (·.2) }
    else
      match word with
      | .unknown => readTokens g { p with extras := p.extras ++ [text] } words
      | .switch s spelling attached => do
        let c ← (cluster g s spelling attached).mapError (.misuse g)
        let (p, ⟨rest, _⟩) ← takeCluster g c p words
        readTokens g p rest
      | _ =>
        match nextOperand? g p ((word, text) :: words) with
        | some (operand, ⟨rest, _⟩) => readTokens g { p with operand := some operand } rest
        | none =>
          have := (words.dropWhile_sublist (!·.1.isSwitch)).length_le
          let extras := words.takeWhile (!·.1.isSwitch)
          readTokens g { p with extras := p.extras ++ text :: extras.map (·.2) }
            (words.dropWhile (!·.1.isSwitch))
termination_by words => words.length
decreasing_by all_goals (simp only [List.length_cons] at *; omega)

/-- Reads words; the operand has to be among them. -/
def readWords (g : Grammar) (words : List String) : Except Halt (List String × Parsed) := do
  let tokens ← (tokens g words).mapError (.misuse g)
  let p ← readTokens g {} tokens
  match p.operand with
  | some operand => return (operand, p)
  | none => throw (.misuse g (.missingOperand g.operand))

end Scaffold.CommandLine
