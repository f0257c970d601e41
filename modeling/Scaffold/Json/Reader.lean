import Scaffold.Json
import Scaffold.Text.Numeral

/-!
# Reading JSON

A document is one value with white space around it. Beyond the standard grammar the reader takes
`NaN`, `Infinity` and `-Infinity`; of two members with one name the first gives the place and the
last the value. A fault is reported with the character at which reading stopped.
-/

namespace Scaffold.Json
set_option autoImplicit false

open Decimal (Binary64)
open Text (NumeralError maxDigits)

/-- What is wrong with a text that is no JSON document. -/
inductive Fault where
  | value
  | memberName
  | colon
  | comma
  | extraData
  | openString
  | controlCharacter
  | badEscape
  | badUnicodeEscape
  | byteOrderMark
  deriving DecidableEq, Repr

def Fault.message : Fault → String
  | value => "Expecting value"
  | memberName => "Expecting property name enclosed in double quotes"
  | colon => "Expecting ':' delimiter"
  | comma => "Expecting ',' delimiter"
  | extraData => "Extra data"
  | openString => "Unterminated string starting at"
  | controlCharacter => "Invalid control character at"
  | badEscape => "Invalid \\escape"
  | badUnicodeEscape => "Invalid \\uXXXX escape"
  | byteOrderMark => "Unexpected UTF-8 BOM (decode using utf-8-sig)"

/-- A fault at a character of the document, or a whole number with too many digits. -/
inductive ReadError where
  | stopped (fault : Fault) (offset : Nat)
  | numeral (error : NumeralError)
  deriving DecidableEq, Repr

/-- What is left of the document, and where it starts. -/
structure Rest where
  offset : Nat
  chars : List Char

def Rest.fail {α : Type} (rest : Rest) (fault : Fault) : Except ReadError (α × Rest) :=
  .error (.stopped fault rest.offset)

def isJsonBlank (c : Char) : Bool := c = ' ' || c = '\t' || c = '\n' || c = '\r'

/-- Without the white space in front. -/
def Rest.skip (rest : Rest) : Rest :=
  let blanks := rest.chars.takeWhile isJsonBlank
  ⟨rest.offset + blanks.length, rest.chars.dropWhile isJsonBlank⟩

/-- Past `count` characters. -/
def Rest.past (rest : Rest) (count : Nat) : Rest := ⟨rest.offset + count, rest.chars.drop count⟩

/-- The value of a hexadecimal digit. -/
def hexDigit? (c : Char) : Option Nat :=
  if '0' ≤ c && c ≤ '9' then some (c.toNat - '0'.toNat)
  else if 'a' ≤ c && c ≤ 'f' then some (c.toNat - 'a'.toNat + 10)
  else if 'A' ≤ c && c ≤ 'F' then some (c.toNat - 'A'.toNat + 10)
  else none

/-- The number of four hexadecimal digits. -/
def hexUnit? (a b c d : Char) : Option Nat := do
  let a ← hexDigit? a
  let b ← hexDigit? b
  let c ← hexDigit? c
  let d ← hexDigit? d
  return ((a * 16 + b) * 16 + c) * 16 + d

def isHighSurrogate (unit : Nat) : Bool := 0xD800 ≤ unit && unit < 0xDC00

def isLowSurrogate (unit : Nat) : Bool := 0xDC00 ≤ unit && unit < 0xE000

/-- The character of two surrogate units. -/
def joinSurrogates (high low : Nat) : Char :=
  Char.ofNat (0x10000 + (high - 0xD800) * 0x400 + (low - 0xDC00))

/-- The character of one unit. A surrogate without its partner is none, and texts hold characters
only: it becomes the replacement character. A reader that kept it would fail later, when the text is
encoded for a digest or a file. -/
def unitChar (unit : Nat) : Char :=
  if isHighSurrogate unit || isLowSurrogate unit then Char.ofNat 0xFFFD else Char.ofNat unit

/-- The character that a backslash and this one stand for. -/
def escapedChar? (c : Char) : Option Char :=
  if c = '"' || c = '\\' || c = '/' then some c
  else if c = 'b' then some '\x08'
  else if c = 'f' then some '\x0c'
  else if c = 'n' then some '\n'
  else if c = 'r' then some '\r'
  else if c = 't' then some '\t'
  else none

/-- The character of an escape whose backslash stands at `offset`, and the number of characters
after the backslash that belong to it. A unit escape is complete only if a further character
follows; a high surrogate takes the low one after it. -/
def escape (offset : Nat) : List Char → Except ReadError (Char × Nat)
  | 'u' :: a :: b :: c :: d :: next :: rest =>
    match hexUnit? a b c d with
    | none => .error (.stopped .badUnicodeEscape (offset + 1))
    | some unit =>
      match next, rest with
      | '\\', 'u' :: a :: b :: c :: d :: _ :: _ =>
        if isHighSurrogate unit then
          match hexUnit? a b c d with
          | none => .error (.stopped .badUnicodeEscape (offset + 7))
          | some low =>
            if isLowSurrogate low then .ok (joinSurrogates unit low, 11) else .ok (unitChar unit, 5)
        else .ok (unitChar unit, 5)
      | _, _ => .ok (unitChar unit, 5)
  | 'u' :: _ => .error (.stopped .badUnicodeEscape (offset + 1))
  | c :: _ =>
    match escapedChar? c with
    | none => .error (.stopped .badEscape offset)
    | some char => .ok (char, 1)
  | [] => .error (.stopped .badEscape offset)

/-- The rest of a string whose opening mark stands at `start`: `skip` characters belong to an
escape already read, `before` holds the characters read so far in reverse, and what is left
begins at `offset`. -/
def stringFrom (start : Nat) : Nat → List Char → Nat → List Char → Except ReadError (String × Rest)
  | _, _, _, [] => .error (.stopped .openString start)
  | skip + 1, before, offset, _ :: rest => stringFrom start skip before (offset + 1) rest
  | 0, before, offset, c :: rest =>
    if c = '"' then .ok (String.ofList before.reverse, ⟨offset + 1, rest⟩)
    else if c = '\\' then
      if rest.isEmpty then .error (.stopped .openString start)
      else match escape offset rest with
        | .error e => .error e
        | .ok (char, width) => stringFrom start width (char :: before) (offset + 1) rest
    else if c.toNat < 0x20 then .error (.stopped .controlCharacter offset)
    else stringFrom start 0 (c :: before) (offset + 1) rest

/-- The digits in front. -/
def digitsOf (chars : List Char) : List Char := chars.takeWhile Char.isDigit

/-- The number that decimal digits spell. -/
def natOf (digits : List Char) : Nat :=
  digits.foldl (fun n c => 10 * n + (c.toNat - '0'.toNat)) 0

/-- The digits before the point: a zero stands alone. -/
def wholeDigits (chars : List Char) : List Char :=
  match chars with
  | '0' :: _ => ['0']
  | _ => digitsOf chars

/-- The digits after a point, if one stands in front and digits follow it. -/
def fractionDigits : List Char → List Char
  | '.' :: rest => digitsOf rest
  | _ => []

/-- A power of ten in front: its value and how many characters it takes. -/
def powerOf? : List Char → Option (Int × Nat)
  | mark :: rest =>
    if mark = 'e' || mark = 'E' then
      let (negative, width, rest) :=
        match rest with
        | '-' :: rest => (true, 2, rest)
        | '+' :: rest => (false, 2, rest)
        | rest => (false, 1, rest)
      let digits := digitsOf rest
      if digits.isEmpty then none
      else some (if negative then -(natOf digits : Int) else natOf digits, width + digits.length)
    else none
  | [] => none

/-- A number after its sign: whole without point and power, floating otherwise. The place where it
begins is that of `start`. -/
def unsigned (start : Rest) (negative : Bool) (body : Rest) : Except ReadError (Json × Rest) :=
  let whole := wholeDigits body.chars
  if whole.isEmpty then start.fail .value
  else
    let body := body.past whole.length
    let fraction := fractionDigits body.chars
    let body := if fraction.isEmpty then body else body.past (fraction.length + 1)
    let power := powerOf? body.chars
    if fraction.isEmpty && power.isNone then
      if whole.length > maxDigits then .error (.numeral (.tooLong whole.length))
      else .ok (.int (if negative then -(natOf whole : Int) else natOf whole), body)
    else
      let (power, width) := power.getD (0, 0)
      .ok (.float (.ofDecimal negative (natOf (whole ++ fraction)) (power - fraction.length)),
        body.past width)

/-- A number, with or without a minus sign. -/
def number (rest : Rest) : Except ReadError (Json × Rest) :=
  if rest.chars.head? = some '-' then unsigned rest true (rest.past 1) else unsigned rest false rest

/-- The words that stand for values. -/
def words : List (List Char × Json) :=
  [("null".toList, .null), ("true".toList, .bool true), ("false".toList, .bool false),
   ("NaN".toList, .float .nan), ("Infinity".toList, .float (.infinite false)),
   ("-Infinity".toList, .float (.infinite true))]

/-- A word or a number. -/
def scalar (rest : Rest) : Except ReadError (Json × Rest) :=
  match words.find? fun w => (Chars.dropHead? w.1 rest.chars).isSome with
  | some (word, value) => .ok (value, rest.past word.length)
  | none => number rest

mutual

/-- A value in front. Every level of the nesting and every item takes a character, and no more than
two units of `fuel`; more than twice the number of characters is never used up. -/
def value : Nat → Rest → Except ReadError (Json × Rest)
  | 0, rest => rest.fail .value
  | fuel + 1, rest =>
    match rest.chars with
    | '"' :: chars => do
      let (text, rest) ← stringFrom rest.offset 0 [] (rest.offset + 1) chars
      return (.string text, rest)
    | '[' :: _ =>
      let rest := (rest.past 1).skip
      if rest.chars.head? = some ']' then .ok (.array [], rest.past 1)
      else items fuel rest []
    | '\x7b' :: _ =>
      let rest := (rest.past 1).skip
      if rest.chars.head? = some '\x7d' then .ok (.object [], rest.past 1)
      else membersFrom fuel rest []
    | _ => scalar rest

/-- The items of an array from the next one on; `before` holds the earlier ones in reverse. -/
def items : Nat → Rest → List Json → Except ReadError (Json × Rest)
  | 0, rest, _ => rest.fail .value
  | fuel + 1, rest, before => do
    let (item, rest) ← value fuel rest
    let rest := rest.skip
    match rest.chars with
    | ']' :: _ => return (.array (item :: before).reverse, rest.past 1)
    | ',' :: _ => items fuel (rest.past 1).skip (item :: before)
    | _ => rest.fail .comma

/-- The members of an object from the next one on. -/
def membersFrom : Nat → Rest → Members → Except ReadError (Json × Rest)
  | 0, rest, _ => rest.fail .value
  | fuel + 1, rest, before =>
    match rest.chars with
    | '"' :: chars => do
      let (name, rest) ← stringFrom rest.offset 0 [] (rest.offset + 1) chars
      let rest := rest.skip
      match rest.chars with
      | ':' :: _ => do
        let (value, rest) ← value fuel (rest.past 1).skip
        let rest := rest.skip
        match rest.chars with
        | '\x7d' :: _ => return (.object (before.put name value), rest.past 1)
        | ',' :: _ => membersFrom fuel (rest.past 1).skip (before.put name value)
        | _ => rest.fail .comma
      | _ => rest.fail .colon
    | _ => rest.fail .memberName

end

/-- The value of a whole document. -/
def readChars (chars : List Char) : Except ReadError Json := do
  if chars.head? = some '\uFEFF' then .error (.stopped .byteOrderMark 0)
  let (result, rest) ← value (2 * chars.length + 1) (Rest.mk 0 chars).skip
  let rest := rest.skip
  if rest.chars.isEmpty then return result else .error (.stopped .extraData rest.offset)

def read (text : String) : Except ReadError Json := readChars text.toList

/-- Line and column, both from one, of the character at `offset`. -/
def position (offset : Nat) (text : String) : Nat × Nat :=
  let before := text.toList.take offset
  (before.count '\n' + 1, (before.reverse.takeWhile (· != '\n')).length + 1)

/-- The message about a text that could not be read. -/
def ReadError.message (text : String) : ReadError → String
  | .stopped fault offset =>
    let (line, column) := position offset text
    fault.message ++ ": line " ++ toString line ++ " column " ++ toString column ++
      " (char " ++ toString offset ++ ")"
  | .numeral error => error.message

end Scaffold.Json
