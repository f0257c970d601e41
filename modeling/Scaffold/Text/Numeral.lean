import Scaffold.Text.Blank
import Scaffold.Text.Digit
import Scaffold.Text.Quoted

/-!
# Integer numerals

An integer numeral is an optional sign and decimal digits of any script, single underscores
between them, with white space around it. A text that begins with more than `maxDigits` digits is
refused for their number, whatever follows them.
-/

namespace Scaffold.Text
set_option autoImplicit false

/-- Why a text is no integer numeral, or an integer has none. -/
inductive NumeralError where
  | notAnInteger (text : String)
  | tooLong (digits : Nat)
  | unwritable
  deriving DecidableEq, Repr

/-- The most digits a numeral may have. -/
def maxDigits : Nat := 4300

def NumeralError.message : NumeralError → String
  | .notAnInteger text =>
    "invalid literal for int() with base 10: " ++ String.ofList ((quoted text).toList.take 200)
  | .tooLong digits =>
    "Exceeds the limit (" ++ toString maxDigits ++
      " digits) for integer string conversion: value has " ++
      toString digits ++ " digits; use sys.set_int_max_str_digits() to increase the limit"
  | .unwritable =>
    "Exceeds the limit (" ++ toString maxDigits ++
      " digits) for integer string conversion; use sys.set_int_max_str_digits() to increase the limit"

/-- The number that digits spell, the most significant first. -/
def numberOf (digits : List Nat) : Nat := digits.foldl (fun n d => 10 * n + d) 0

/-- The sign of a numeral, true for minus, and what stands after it. -/
def signed : List Char → Bool × List Char
  | '-' :: rest => (true, rest)
  | '+' :: rest => (false, rest)
  | chars => (false, chars)

def isNumeralChar (c : Char) : Bool := c = '_' || isDecimalDigit c

/-- Whether underscores stand singly, with digits on both sides. -/
def areSeparators (chars : List Char) : Bool :=
  chars.head? ≠ some '_' && chars.getLast? ≠ some '_' && !Chars.has ['_', '_'] chars

/-- The integer that a numeral spells. -/
def readInteger (text : String) : Except NumeralError Int :=
  let (negative, body) := signed (text.toList.dropWhile isSpace)
  let chars := body.takeWhile isNumeralChar
  let digits := chars.filterMap digitValue?
  if !areSeparators chars then .error (.notAnInteger text)
  else if digits.length > maxDigits then .error (.tooLong digits.length)
  else if digits.isEmpty || !(body.dropWhile isNumeralChar).all isSpace then
    .error (.notAnInteger text)
  else .ok (if negative then -(numberOf digits : Int) else numberOf digits)

end Scaffold.Text
