import Scaffold.Naming.Inflection
import Scaffold.Text.Blank

/-!
# Names

How one name of the schema is spelled where a Laravel project needs it: as a class, a variable, a
table or a segment of a path in a URL.
-/

namespace Scaffold.Naming
set_option autoImplicit false

/-- Whether a new word begins at the capital `c` after `before`: after a small letter or a digit,
or as the last of several capitals, before a small letter. -/
def beginsWord (before c : Char) (next : Option Char) : Bool :=
  c.isUpper && (before.isLower || before.isDigit || (before.isUpper && next.any Char.isLower))

/-- The words of Latin letters and digits in a name; `word` holds, in reverse, the one that is
being read. -/
def wordsFrom : List Char → List Char → List (List Char)
  | word, [] => if word.isEmpty then [] else [word.reverse]
  | word, c :: rest =>
    if c.isAlphanum then
      match word with
      | [] => wordsFrom [c] rest
      | before :: _ =>
        if beginsWord before c rest.head? then word.reverse :: wordsFrom [c] rest
        else wordsFrom (c :: word) rest
    else if word.isEmpty then wordsFrom [] rest
    else word.reverse :: wordsFrom [] rest

/-- Small words joined by underscores. -/
def snake (name : String) : String :=
  String.ofList (['_'].intercalate ((wordsFrom [] name.toList).map (·.map Char.toLower)))

/-- The pieces of a text between characters for which `isGap` holds, empty ones left out. -/
def piecesBetween (isGap : Char → Bool) : List Char → List Char → List (List Char)
  | piece, [] => if piece.isEmpty then [] else [piece.reverse]
  | piece, c :: rest =>
    if isGap c then
      if piece.isEmpty then piecesBetween isGap [] rest
      else piece.reverse :: piecesBetween isGap [] rest
    else piecesBetween isGap (c :: piece) rest

/-- Words run together, each with a capital; the case inside a word is kept. -/
def studly (name : String) : String :=
  let isGap (c : Char) : Bool := c = '-' || c = '_' || Text.isBlank c
  String.join ((piecesBetween isGap [] name.toList).map fun p => Text.capitalized (String.ofList p))

/-- Like `studly`, but with a small first letter. -/
def camel (name : String) : String := Text.uncapitalized (studly name)

/-- The table of an entity. -/
def table (entity : String) : String := plural (snake entity)

/-- The class that a table's rows most likely have. -/
def modelOfTable (table : String) : String := studly (singular table)

/-- The segment of an entity in the paths of its routes. -/
def segment (entity : String) : String :=
  plural (String.ofList ((snake entity).toList.map fun c => if c = '_' then '-' else c))

end Scaffold.Naming
