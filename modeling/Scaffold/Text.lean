/-!
# Text

Cutting and joining of text. Every operation is defined on lists of characters, in the namespace
`Chars`, and lifted to `String` under the same name; the lemmas beside a definition say what its
pieces contain and how they join again.
-/

namespace Scaffold
set_option autoImplicit false

namespace Chars

/-- The pieces between the occurrences of `sep`; a text without `sep` is one piece. -/
def split (sep : Char) : List Char → List (List Char)
  | [] => [[]]
  | c :: rest =>
    if c = sep then [] :: split sep rest
    else match split sep rest with
      | [] => [[c]]
      | piece :: pieces => (c :: piece) :: pieces

/-- The text before and after the first `sep`, if there is one. -/
def cut? (sep : Char) : List Char → Option (List Char × List Char)
  | [] => none
  | c :: rest =>
    if c = sep then some ([], rest)
    else (cut? sep rest).map fun p => (c :: p.1, p.2)

/-- The rest of `text` after `head`, if it starts so. -/
def dropHead? : List Char → List Char → Option (List Char)
  | [], text => some text
  | _ :: _, [] => none
  | h :: head, c :: text => if h = c then dropHead? head text else none

/-- The number of characters before the first occurrence of `part`. -/
def find? (part : List Char) : List Char → Option Nat
  | [] => if part.isEmpty then some 0 else none
  | c :: text =>
    if (dropHead? part (c :: text)).isSome then some 0 else (find? part text).map (· + 1)

/-- Whether `part` occurs in the text. -/
def has (part text : List Char) : Bool := (find? part text).isSome

/-- Whether the text ends with `tail`. -/
def endsWith (tail text : List Char) : Bool := (dropHead? tail.reverse text.reverse).isSome

/-- Without the characters at both ends for which `drop` holds. -/
def trim (drop : Char → Bool) (text : List Char) : List Char :=
  ((text.dropWhile drop).reverse.dropWhile drop).reverse

/-- Every character of `marked` with a backslash before it. -/
def escape (marked : List Char) (text : List Char) : List Char :=
  text.flatMap fun c => if c ∈ marked then ['\\', c] else [c]

theorem escape_cons (marked : List Char) (c : Char) (text : List Char) :
    escape marked (c :: text) = (if c ∈ marked then ['\\', c] else [c]) ++ escape marked text :=
  List.flatMap_cons

/-- What holds of all characters of a text is decided by going through the text, not through all
characters. -/
instance decidableForallMem (p : Char → Prop) [DecidablePred p] (text : List Char) :
    Decidable (∀ c ∈ text, p c) :=
  List.decidableBAll p text

/-- A text is never cut into no piece at all. -/
theorem split_ne_nil (sep : Char) (text : List Char) : split sep text ≠ [] := by
  cases text with
  | nil => simp [split]
  | cons c rest =>
    simp only [split]
    split
    · simp
    · split <;> simp

/-- A head that can be dropped stands in front of what is left. -/
theorem dropHead?_eq_some {head text rest : List Char} :
    dropHead? head text = some rest ↔ text = head ++ rest := by
  induction head generalizing text with
  | nil => simp [dropHead?, eq_comm]
  | cons h head ih =>
    cases text with
    | nil => simp [dropHead?]
    | cons c text =>
      by_cases hc : h = c
      · subst hc; simp [dropHead?, ih]
      · simp [dropHead?, hc, Ne.symm hc]

/-- The two sides of a cut join at the separator to the whole. -/
theorem eq_of_cut? {sep : Char} {text left right : List Char}
    (h : cut? sep text = some (left, right)) : text = left ++ sep :: right ∧ sep ∉ left := by
  induction text generalizing left with
  | nil => simp [cut?] at h
  | cons c rest ih =>
    by_cases hc : c = sep
    · subst hc
      simp only [cut?, if_true, Option.some.injEq, Prod.mk.injEq] at h
      obtain ⟨rfl, rfl⟩ := h
      simp
    · simp only [cut?, hc, if_false, Option.map_eq_some_iff, Prod.mk.injEq] at h
      obtain ⟨⟨l, r⟩, h, rfl, rfl⟩ := h
      obtain ⟨e, m⟩ := ih h
      exact ⟨by simp [e], by simp [m, Ne.symm hc]⟩

end Chars

namespace Text

/-- The pieces between the occurrences of `sep`. -/
def split (sep : Char) (text : String) : List String :=
  (Chars.split sep text.toList).map String.ofList

/-- The text before and after the first `sep`, if there is one. -/
def cut? (sep : Char) (text : String) : Option (String × String) :=
  (Chars.cut? sep text.toList).map fun p => (String.ofList p.1, String.ofList p.2)

/-- The rest of `text` after `head`, if it starts so. -/
def dropHead? (head text : String) : Option String :=
  (Chars.dropHead? head.toList text.toList).map String.ofList

def startsWith (head text : String) : Bool := (Chars.dropHead? head.toList text.toList).isSome

def endsWith (tail text : String) : Bool := Chars.endsWith tail.toList text.toList

/-- Whether `part` occurs in the text. -/
def has (part text : String) : Bool := Chars.has part.toList text.toList

def hasChar (c : Char) (text : String) : Bool := text.toList.contains c

/-- The texts one after another with `sep` between them. -/
def join (sep : String) (texts : List String) : String := sep.intercalate texts

theorem toList_join (sep : String) (texts : List String) :
    (join sep texts).toList = sep.toList.intercalate (texts.map String.toList) :=
  String.toList_intercalate

/-- Lines joined by line feeds. -/
def unlines (lines : List String) : String := join "\n" lines

/-- Every character of `marked` with a backslash before it. -/
def escape (marked : List Char) (text : String) : String :=
  String.ofList (Chars.escape marked text.toList)

/-- The character `c`, `count` times. -/
def repeated (c : Char) (count : Nat) : String := String.ofList (List.replicate count c)

/-- Filled up on the right with blanks to `width` characters. -/
def padRight (width : Nat) (text : String) : String :=
  text ++ repeated ' ' (width - text.length)

/-- Filled up on the left with `c` to `width` characters. -/
def padLeft (c : Char) (width : Nat) (text : String) : String :=
  repeated c (width - text.length) ++ text

/-- A natural number in decimal with at least `width` digits. -/
def digits (width n : Nat) : String := padLeft '0' width (toString n)

end Text
end Scaffold
