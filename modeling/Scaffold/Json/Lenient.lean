import Scaffold.Json
import Scaffold.Text.Numeral

/-!
# Lenient reading of plain values

Stored and given settings are read leniently: a whole number may come as a float without fraction,
a text of digits or a truth value, and a truth value as zero, one or a word. Texts are never made
from other values.
-/

namespace Scaffold.Json
set_option autoImplicit false

def asText? : Json → Option String
  | string text => some text
  | _ => none

/-- The members of an object. -/
def asObject? : Json → Option Members
  | object members => some members
  | _ => none

/-- Without a point and the zeros after it, if that is all that follows the point. -/
def withoutZeroFraction (chars : List Char) : List Char :=
  match Chars.cut? '.' chars with
  | some (whole, fraction) => if !fraction.isEmpty && fraction.all (· = '0') then whole else chars
  | none => chars

/-- The number of ASCII digits between which single underscores may stand, perhaps with a fraction
of zeros. A zero in front stands alone, and there is a limit to the digits. -/
def plainDigits? (chars : List Char) : Option Nat :=
  let chars := withoutZeroFraction chars
  let digits := chars.filter (· != '_')
  if digits.isEmpty || !digits.all Char.isDigit || !Text.areSeparators chars then none
  else if digits.head? = some '0' && 1 < digits.length then none
  else if Text.maxDigits < digits.length then none
  else some (digits.foldl (fun n c => 10 * n + (c.toNat - '0'.toNat)) 0)

def isFiller (c : Char) : Bool := c = '0' || c = '_'

/-- The number of digits that may begin with zeros, with underscores among them. -/
def paddedDigits? (chars : List Char) : Option Nat :=
  if chars.head? = some '0' then
    let closed := (chars.takeWhile isFiller).getLast? = some '0'
    match chars.dropWhile isFiller with
    | [] => if closed then some 0 else none
    | '.' :: fraction => if closed then plainDigits? ('0' :: '.' :: fraction) else none
    | rest => plainDigits? rest
  else plainDigits? chars

/-- The number of digits that may begin with zeros, between which and the others a minus sign may
stand, with an underscore behind it. -/
def paddedWhole? (chars : List Char) : Option Int :=
  match chars.head?, chars.dropWhile isFiller with
  | some '0', '-' :: '_' :: rest => (plainDigits? rest).map fun n => -(n : Int)
  | some '0', '-' :: rest => (plainDigits? rest).map fun n => -(n : Int)
  | _, _ => (paddedDigits? chars).map Int.ofNat

/-- The whole number that a text of ASCII digits, with or without a sign, spells. -/
def wholeOfText? (text : String) : Option Int :=
  match Chars.trim Text.isSpace text.toList with
  | '-' :: chars => (paddedDigits? chars).map fun n => -(n : Int)
  | '+' :: '-' :: _ => none
  | '+' :: chars => paddedWhole? chars
  | chars => paddedWhole? chars

/-- The whole number that a value stands for. -/
def asWhole? : Json → Option Int
  | int value => some value
  | bool value => some (if value then 1 else 0)
  | float value =>
    match value.truncate? with
    | some whole => if value.isIntegral && whole.natAbs < Nat.pow 2 63 then some whole else none
    | none => none
  | string text => wholeOfText? text
  | _ => none

/-- The truth value that a value stands for. -/
def asFlag? (json : Json) : Option Bool :=
  match json with
  | bool value => some value
  | string text =>
    let word := String.ofList (text.toList.map Char.toLower)
    if ["0", "off", "f", "false", "n", "no"].contains word then some false
    else if ["1", "on", "t", "true", "y", "yes"].contains word then some true
    else none
  | int _ | float _ =>
    match json.asWhole? with
    | some 0 => some false
    | some 1 => some true
    | _ => none
  | _ => none

end Scaffold.Json
