import Scaffold.Json
import Scaffold.Sorting
import Scaffold.Text.Numeral

/-!
# Printing JSON

Two forms. The canonical text has the members of every object in the order of their names and no
white space, so that two documents that differ only in the order of members have one text. The
indented text, for files that people read, orders members too, puts each item on a line of its own
and writes every character beyond ASCII by its number. A value in which a whole number has too many
digits is not printed.
-/

namespace Scaffold.Json
set_option autoImplicit false

open Decimal (Binary64)

/-- A 16-bit unit by its number. -/
def unitEscape (unit : Nat) : List Char := ['\\', 'u'] ++ Text.hex 4 unit

/-- A character by the numbers of its 16-bit units. -/
def numberEscape (c : Char) : List Char :=
  if c.toNat < 0x10000 then unitEscape c.toNat
  else
    let beyond := c.toNat - 0x10000
    unitEscape (0xD800 + beyond / 0x400) ++ unitEscape (0xDC00 + beyond % 0x400)

/-- How a character stands inside a string; with `ascii`, what is not printable ASCII by its
number. -/
def stringChar (ascii : Bool) (c : Char) : List Char :=
  if c = '"' || c = '\\' then ['\\', c]
  else if c = '\n' then ['\\', 'n']
  else if c = '\r' then ['\\', 'r']
  else if c = '\t' then ['\\', 't']
  else if c = '\x0c' then ['\\', 'f']
  else if c = '\x08' then ['\\', 'b']
  else if c.toNat < 0x20 || (ascii && 0x7E < c.toNat) then numberEscape c
  else [c]

def stringLiteral (ascii : Bool) (text : String) : List Char :=
  '"' :: text.toList.flatMap (stringChar ascii) ++ ['"']

def floatLiteral : Binary64 → List Char
  | .nan => "NaN".toList
  | .infinite negative => if negative then "-Infinity".toList else "Infinity".toList
  | value => value.written.toList

mutual

/-- The canonical text of a value. -/
def canonicalChars : Json → List Char
  | null => "null".toList
  | bool value => if value then "true".toList else "false".toList
  | int value => (toString value).toList
  | float value => floatLiteral value
  | string value => stringLiteral false value
  | array items => '[' :: [','].intercalate (canonicalItems items) ++ [']']
  | object members =>
    '\x7b' :: [','].intercalate ((sortOn (·.1) (canonicalMembers members)).map (·.2)) ++ ['\x7d']

def canonicalItems : List Json → List (List Char)
  | [] => []
  | item :: items => canonicalChars item :: canonicalItems items

/-- Each name with the text of its member. -/
def canonicalMembers : List (String × Json) → List (String × List Char)
  | [] => []
  | (name, value) :: members =>
    (name, stringLiteral false name ++ ':' :: canonicalChars value) :: canonicalMembers members

end

def canonical (json : Json) : String := String.ofList json.canonicalChars

/-- A line end and two blanks for each level. -/
def lineAt (level : Nat) : List Char := '\n' :: List.replicate (2 * level) ' '

/-- Texts between brackets, each on a line of its own one level below. -/
def bracketed (opening closing : Char) (level : Nat) (texts : List (List Char)) : List Char :=
  if texts.isEmpty then [opening, closing]
  else
    opening :: lineAt (level + 1) ++ (',' :: lineAt (level + 1)).intercalate texts ++
      lineAt level ++ [closing]

mutual

/-- The indented text of a value at a level of nesting. -/
def indentedChars (level : Nat) : Json → List Char
  | null => "null".toList
  | bool value => if value then "true".toList else "false".toList
  | int value => (toString value).toList
  | float value => floatLiteral value
  | string value => stringLiteral true value
  | array items => bracketed '[' ']' level (indentedItems (level + 1) items)
  | object members =>
    bracketed '\x7b' '\x7d' level ((sortOn (·.1) (indentedMembers (level + 1) members)).map (·.2))

def indentedItems (level : Nat) : List Json → List (List Char)
  | [] => []
  | item :: items => indentedChars level item :: indentedItems level items

/-- Each name with the text of its member. -/
def indentedMembers (level : Nat) : List (String × Json) → List (String × List Char)
  | [] => []
  | (name, value) :: members =>
    (name, stringLiteral true name ++ ':' :: ' ' :: indentedChars level value) ::
      indentedMembers level members

end

mutual

/-- Whether no whole number in a value has too many digits. -/
def isPrintable : Json → Bool
  | int value => (toString value.natAbs).length ≤ Text.maxDigits
  | array items => arePrintable items
  | object members => membersPrintable members
  | _ => true

def arePrintable : List Json → Bool
  | [] => true
  | item :: items => isPrintable item && arePrintable items

def membersPrintable : List (String × Json) → Bool
  | [] => true
  | (_, value) :: members => isPrintable value && membersPrintable members

end

/-- The indented text, closed by a line feed. -/
def indented (json : Json) : String := String.ofList (json.indentedChars 0 ++ ['\n'])

end Scaffold.Json
