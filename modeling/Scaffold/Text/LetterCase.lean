import Scaffold.Text.LetterCase.Table

/-!
# Letter case

Small and capital forms of whole texts. A capital form may be several letters; the small form of
a capital sigma depends on the letters around it.
-/

namespace Scaffold.Text
set_option autoImplicit false

/-- The capital form of one character. -/
def upperChar (c : Char) : List Char :=
  match LetterCase.toUpperMany.find? fun p => p.1 == c.toNat with
  | some (_, codes) => codes.map Char.ofNat
  | none => [(LetterCase.Run.image? LetterCase.toUpper c).getD c]

/-- The small form of one character, of a sigma the one inside a word. -/
def lowerChar (c : Char) : List Char :=
  if c.toNat = 0x130 then ['i', Char.ofNat 0x307]
  else [(LetterCase.Run.image? LetterCase.toLower c).getD c]

/-- Whether the first character of `text` that is not case-ignorable is a cased letter. -/
def meetsCased (text : List Char) : Bool :=
  match text.dropWhile LetterCase.caseIgnorable.has with
  | [] => false
  | c :: _ => LetterCase.cased.has c

/-- Small forms of the characters after `before`, which is held in reverse: a capital sigma that
ends a word becomes a final sigma. -/
def lowerFrom : List Char → List Char → List Char
  | _, [] => []
  | before, c :: rest =>
    let form :=
      if c.toNat = 0x3A3 && meetsCased before && !meetsCased rest then [Char.ofNat 0x3C2]
      else lowerChar c
    form ++ lowerFrom (c :: before) rest

def lower (text : String) : String := String.ofList (lowerFrom [] text.toList)

/-- The text with the capital form of its first character. -/
def capitalized (text : String) : String :=
  match text.toList with
  | [] => ""
  | c :: rest => String.ofList (upperChar c ++ rest)

/-- The text with the small form of its first character. -/
def uncapitalized (text : String) : String :=
  match text.toList with
  | [] => ""
  | c :: rest => String.ofList (lowerChar c ++ rest)

end Scaffold.Text
