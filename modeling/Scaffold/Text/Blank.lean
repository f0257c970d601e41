import Scaffold.Text
import Scaffold.Text.Ranges

/-!
# Blanks and line ends

Which characters count as white space, and where a text breaks into lines. Both classes are the
wide ones: separators of every script, and the line ends of terminals and word processors.
-/

namespace Scaffold.Text
set_option autoImplicit false

/-- White space: controls 9 to 13 and 28 to 31, and the separators. -/
def blanks : Ranges :=
  [(9, 13), (28, 32), (133, 133), (160, 160), (5760, 5760), (8192, 8202), (8232, 8233),
   (8239, 8239), (8287, 8287), (12288, 12288)]

def isBlank (c : Char) : Bool := blanks.has c

/-- White space in the narrow sense: without the separators of files, groups, records and units. -/
def isSpace (c : Char) : Bool := isBlank c && !(28 ≤ c.toNat && c.toNat ≤ 31)

/-- Without the white space at both ends. -/
def strip (text : String) : String := String.ofList (Chars.trim isBlank text.toList)

/-- Nothing but white space. -/
def isBlankText (text : String) : Bool := text.toList.all isBlank

/-- Characters that end a line. -/
def lineEnds : Ranges := [(10, 13), (28, 30), (133, 133), (8232, 8233)]

def isLineEnd (c : Char) : Bool := lineEnds.has c

/-- The lines of a text without their ends: a carriage return and the line feed after it are one
end, and an end that closes the text opens no further line. -/
def linesFrom : List Char → List Char → List (List Char)
  | [], [] => []
  | line, [] => [line.reverse]
  | line, '\r' :: '\n' :: rest => line.reverse :: linesFrom [] rest
  | line, c :: rest =>
    if isLineEnd c then line.reverse :: linesFrom [] rest else linesFrom (c :: line) rest

def lines (text : String) : List String := (linesFrom [] text.toList).map String.ofList

end Scaffold.Text
