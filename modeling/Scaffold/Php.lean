import Scaffold.Text
import Scaffold.Text.Blank
import Scaffold.Text.Digit

/-!
# PHP literals and layout

Text that stands in PHP source: single-quoted literals, short arrays of them, and lines indented
by blanks.
-/

namespace Scaffold.Php
set_option autoImplicit false

/-- A single-quoted literal, in which a backslash and a single quote have a backslash before
them. -/
def literal (text : String) : String := "'" ++ Text.escape ['\\', '\''] text ++ "'"

/-- A short array of single-quoted literals. -/
def array (items : List String) : String := "[" ++ Text.join ", " (items.map literal) ++ "]"

/-- Text for a double-quoted literal; variables in it stay alive. -/
def doubleQuoted (text : String) : String := Text.escape ['\\', '"'] text

/-- Digits, then nothing, a point with digits, or a line feed that closes the text. -/
def isNumberTail : List Char → Bool
  | ['\n'] => true
  | [] => true
  | '.' :: rest =>
    let digits := rest.takeWhile Text.isDecimalDigit
    !digits.isEmpty && (rest.dropWhile Text.isDecimalDigit == [] ||
      rest.dropWhile Text.isDecimalDigit == ['\n'])
  | _ => false

/-- An optional minus, digits, and digits after a point if there is one. -/
def isNumber (text : String) : Bool :=
  let body := (Chars.dropHead? ['-'] text.toList).getD text.toList
  !(body.takeWhile Text.isDecimalDigit).isEmpty && isNumberTail (body.dropWhile Text.isDecimalDigit)

/-- The PHP expression of a plain value: a truth value, null or number as it is, all else as a
literal. -/
def scalar (value : String) : String :=
  if ["true", "false", "null"].contains value || isNumber value then value else literal value

/-- Lines indented by a number of blanks; blank lines become empty. -/
def indentBy (width : Nat) (lines : List String) : List String :=
  lines.map fun line => if Text.isBlankText line then "" else Text.repeated ' ' width ++ line

/-- Lines indented by `level` times `size` blanks, and not at all if that is less than none. -/
def indentScaled (level size : Int) (lines : List String) : List String :=
  indentBy (level * size).toNat lines

/-- Lines indented by `level` times four blanks. -/
def indent (level : Nat) (lines : List String) : List String := indentBy (level * 4) lines

end Scaffold.Php
