import Scaffold.Text

/-!
# Marked sections

In a file that people edit too, generated lines stand between two marker comments. Merging
replaces what is between the markers; where they are missing, or do not stand in order, the
section is put in after an anchor or at the end. Nothing outside the section changes.
-/

namespace Scaffold
set_option autoImplicit false

/-- The last place, as a number of characters, at which `part` occurs. -/
def Chars.findLast? (part : List Char) : List Char → Option Nat
  | [] => if part.isEmpty then some 0 else none
  | c :: text =>
    match Chars.findLast? part text with
    | some place => some (place + 1)
    | none => if (Chars.dropHead? part (c :: text)).isSome then some 0 else none

/-- The first place from `start` on at which `part` occurs. -/
def Chars.findFrom? (part : List Char) (start : Nat) (text : List Char) : Option Nat :=
  if text.length < start then none else (Chars.find? part (text.drop start)).map (· + start)

/-- The two comments around a section. -/
structure Markers where
  opening : String
  closing : String
  deriving DecidableEq, Repr

namespace Markers

def routes : Markers := ⟨"// >>> AI-NATIVE ROUTES START", "// >>> AI-NATIVE ROUTES END"⟩

def seeders : Markers := ⟨"// >>> AI-NATIVE SEEDERS START", "// >>> AI-NATIVE SEEDERS END"⟩

end Markers

namespace Section

/-- The code after which the seeder calls of a hand-written seeder stand. -/
def seederAnchor : String := "$this->call(["

/-- Where the section stands: from the start of the line of its opening marker to the end of the
line of its closing marker. The closing marker is the first after any opening one, and belongs to
the opening marker nearest before it. -/
def findIn? (markers : Markers) (text : List Char) : Option (Nat × Nat) := do
  let opening := markers.opening.toList
  let first ← Chars.find? opening text
  let closing ← Chars.findFrom? markers.closing.toList (first + opening.length) text
  let nearest ← Chars.findLast? opening (text.take closing)
  let lineStart := ((Chars.findLast? ['\n'] (text.take nearest)).map (· + 1)).getD 0
  let lineEnd := (Chars.findFrom? ['\n'] closing text).getD text.length
  return (lineStart, lineEnd)

def find? (markers : Markers) (text : String) : Option (Nat × Nat) := findIn? markers text.toList

/-- The lines between their markers, all indented; empty lines stay empty. -/
def wrap (markers : Markers) (body : List String) (indent : String) : String :=
  Text.unlines ((indent ++ markers.opening) ::
    (body.map fun line => if line.isEmpty then "" else indent ++ line) ++
      [indent ++ markers.closing])

/-- Blanks and tabs in front. -/
def indentOf (chars : List Char) : String :=
  String.ofList (chars.takeWhile fun c => c = ' ' || c = '\t')

/-- The text with the body of its section replaced, at the indentation that the section has. -/
def replace? (markers : Markers) (body : List String) (text : String) : Option String := do
  let chars := text.toList
  let (first, last) ← findIn? markers chars
  let indent := indentOf (chars.drop first)
  return String.ofList (chars.take first) ++ wrap markers body indent ++ String.ofList
    (chars.drop last)

/-- The text with the section at its end. -/
def append (markers : Markers) (body : List String) (text : String) : String :=
  let head := String.ofList (text.toList.reverse.dropWhile (· = '\n')).reverse
  let gap := if head.isEmpty then "" else "\n\n"
  head ++ gap ++ wrap markers body "" ++ "\n"

/-- The text with the section on the line after a place. -/
def insertAfter (markers : Markers) (body : List String) (indent : String) (place : Nat)
    (text : String) : String :=
  let chars := text.toList
  let wrapped := wrap markers body indent
  let endsLine := place ≠ 0 && chars[place - 1]? = some '\n'
  match if endsLine then some place else (Chars.findFrom? ['\n'] place chars).map (· + 1) with
  | none => text ++ "\n" ++ wrapped ++ "\n"
  | some next =>
    String.ofList (chars.take next) ++ wrapped ++ "\n" ++ String.ofList (chars.drop next)

/-- Where the first occurrence of an anchor ends. -/
def endOf? (anchor text : String) : Option Nat :=
  (Chars.find? anchor.toList text.toList).map (· + anchor.length)

/-- The text with the section on the line after the first occurrence of the anchor. -/
def insert? (markers : Markers) (body : List String) (anchor indent : String) (text : String) :
    Option String :=
  (endOf? anchor text).map fun place => insertAfter markers body indent place text

/-- What a merge did. -/
inductive Outcome where
  | replaced
  | inserted
  | appended
  deriving DecidableEq, Repr

def Outcome.name : Outcome → String
  | replaced => "replaced"
  | inserted => "inserted"
  | appended => "appended"

/-- The text with the section in it: replaced where it stands, else on the line after the place
where an anchor ends, else at the end. -/
def mergeAfter (markers : Markers) (body : List String) (place : Option Nat)
    (indent text : String) : Outcome × String :=
  match replace? markers body text, place with
  | some text, _ => (.replaced, text)
  | none, some place => (.inserted, insertAfter markers body indent place text)
  | none, none => (.appended, append markers body text)

/-- The text with the section in it, with the first occurrence of a text as its anchor. -/
def merge (markers : Markers) (body : List String) (anchor : Option String) (indent : String)
    (text : String) : Outcome × String :=
  mergeAfter markers body (anchor.bind (endOf? · text)) indent text

end Section
end Scaffold
