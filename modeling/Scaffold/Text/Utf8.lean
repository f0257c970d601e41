import Scaffold.Text.Quoted

/-!
# Reading UTF-8

Bytes that are valid UTF-8 are a text. Of others the first fault is reported: a byte that can
start no character, a sequence broken by a byte that cannot continue it, or the end of the data
within a sequence.
-/

namespace Scaffold.Text.Utf8
set_option autoImplicit false

/-- What is wrong with bytes from an offset on. -/
inductive Fault where
  | badStart
  | badContinuation
  | unexpectedEnd
  deriving DecidableEq, Repr

/-- The first fault in bytes that are no UTF-8: `width` bytes from `offset`, the first of them
`byte`. -/
structure DecodeError where
  fault : Fault
  offset : Nat
  width : Nat
  byte : UInt8
  deriving DecidableEq, Repr

def Fault.message : Fault → String
  | badStart => "invalid start byte"
  | badContinuation => "invalid continuation byte"
  | unexpectedEnd => "unexpected end of data"

def DecodeError.message (error : DecodeError) : String :=
  let place :=
    if error.width = 1 then
      "byte 0x" ++ String.ofList (hex 2 error.byte.toNat) ++ " in position " ++
        toString error.offset
    else
      "bytes in position " ++ toString error.offset ++ "-" ++
        toString (error.offset + error.width - 1)
  "'utf-8' codec can't decode " ++ place ++ ": " ++ error.fault.message

/-- The ranges in which the bytes after a first byte lie, none when it starts no character. -/
def continuations? (byte : UInt8) : Option (List (UInt8 × UInt8)) :=
  let any : UInt8 × UInt8 := (0x80, 0xBF)
  if byte < 0x80 then some []
  else if byte < 0xC2 then none
  else if byte < 0xE0 then some [any]
  else if byte = 0xE0 then some [(0xA0, 0xBF), any]
  else if byte = 0xED then some [(0x80, 0x9F), any]
  else if byte < 0xF0 then some [any, any]
  else if byte = 0xF0 then some [(0x90, 0xBF), any, any]
  else if byte < 0xF4 then some [any, any, any]
  else if byte = 0xF4 then some [(0x80, 0x8F), any, any]
  else none

/-- How far bytes follow the ranges: the number that do, and what stops them, if anything. -/
def follow : List (UInt8 × UInt8) → List UInt8 → Nat × Option Fault
  | [], _ => (0, none)
  | _ :: _, [] => (0, some .unexpectedEnd)
  | (low, high) :: ranges, byte :: rest =>
    if low ≤ byte && byte ≤ high then
      let (count, fault) := follow ranges rest
      (count + 1, fault)
    else (0, some .badContinuation)

/-- The first fault, where `skip` bytes belong to a character already read. -/
def firstFault : Nat → Nat → List UInt8 → Option DecodeError
  | _, _, [] => none
  | skip + 1, offset, _ :: rest => firstFault skip (offset + 1) rest
  | 0, offset, byte :: rest =>
    match continuations? byte with
    | none => some ⟨.badStart, offset, 1, byte⟩
    | some ranges =>
      match follow ranges rest with
      | (count, none) => firstFault count (offset + 1) rest
      | (count, some fault) => some ⟨fault, offset, count + 1, byte⟩

/-- The text that bytes hold. -/
def decode (bytes : ByteArray) : Except DecodeError String :=
  match String.fromUTF8? bytes with
  | some text => .ok text
  | none => .error ((firstFault 0 0 bytes.toList).getD ⟨.badStart, 0, 1, 0⟩)

/-- The bytes with each faulty sequence replaced by the replacement character; `skip` bytes belong
to what came before. -/
def repaired : Nat → List UInt8 → List UInt8
  | _, [] => []
  | skip + 1, _ :: rest => repaired skip rest
  | 0, byte :: rest =>
    let replacement : List UInt8 := [0xEF, 0xBF, 0xBD]
    match continuations? byte with
    | none => replacement ++ repaired 0 rest
    | some ranges =>
      match follow ranges rest with
      | (count, none) => byte :: rest.take count ++ repaired count rest
      | (count, some _) => replacement ++ repaired count rest

/-- The text that bytes hold, with replacement characters for what is no UTF-8. -/
def decodeLossy (bytes : ByteArray) : String :=
  (String.fromUTF8? (repaired 0 bytes.toList).toByteArray).getD ""

end Scaffold.Text.Utf8
