import Scaffold.Text

/-!
# Patterns for paths

A pattern is a text in which `*` stands for any characters, `?` for one, and brackets for one of a
set. What `*` stands for may hold slashes: `Pattern.accepts` compares whole paths. The main
statements are that a closing bracket leaves a shorter rest, so every pattern is read to its end,
and that `Pattern.recognizes`, which tries no rest of a text twice, decides `Pattern.accepts`.
-/

namespace Scaffold
set_option autoImplicit false

/-- One part of a pattern. -/
inductive PatternPart where
  | anything
  | anyChar
  | char (c : Char)
  | oneOf (ranges : List (Char × Char))
  | noneOf (ranges : List (Char × Char))
  deriving DecidableEq, Repr

/-- A pattern, read. -/
abbrev Pattern := List PatternPart

namespace Pattern

/-- Whether a text has a character that means more than itself. -/
def isPattern (text : String) : Bool := text.toList.any fun c => c = '*' || c = '?' || c = '['

/-- The items of a set: `x-y` is a range, any other character an item of its own. -/
def items : List Char → List (Char × Option Char)
  | first :: '-' :: last :: rest => (first, some last) :: items rest
  | c :: rest => (c, none) :: items rest
  | [] => []

/-- An item as a range; of a single character, the range of itself. -/
def rangeOf (item : Char × Option Char) : Char × Char := (item.1, item.2.getD item.1)

/-- Items that hold a character. -/
def nonempty (set : List (Char × Option Char)) : List (Char × Option Char) :=
  set.filter fun item => item.1 ≤ (rangeOf item).2

/-- The set between brackets. One that begins with `!` holds what the rest does not; so does one
whose `!` is moved to the front because all ranges before it are empty, and a hyphen and the last
character of a range that begins so stand for themselves. -/
def setOf (body : List Char) : PatternPart :=
  match body with
  | '!' :: body => .noneOf ((nonempty (items body)).map rangeOf)
  | body =>
    match nonempty (items body) with
    | ('!', none) :: rest => .noneOf (rest.map rangeOf)
    | ('!', some last) :: rest => .noneOf (('-', '-') :: (last, last) :: rest.map rangeOf)
    | set => .oneOf (set.map rangeOf)

/-- The leading `c` of a text, if it is there, and the rest. -/
def leading (c : Char) : List Char → List Char × List Char
  | d :: rest => if d = c then ([d], rest) else ([], d :: rest)
  | [] => ([], [])

theorem leading_append (c : Char) (text : List Char) :
    (leading c text).1 ++ (leading c text).2 = text := by
  cases text with
  | nil => rfl
  | cons d rest => by_cases h : d = c <;> simp [leading, h]

/-- What stands between an opening bracket and its closing one, and what follows. A closing
bracket that comes first, or first after `!`, belongs to the set. -/
def bracketed? (text : List Char) : Option (List Char × List Char) :=
  let (mark, text) := leading '!' text
  let (first, text) := leading ']' text
  (Chars.cut? ']' text).map fun (body, rest) => (mark ++ first ++ body, rest)

theorem length_lt_of_bracketed? {text body rest : List Char}
    (h : bracketed? text = some (body, rest)) : rest.length < text.length := by
  simp only [bracketed?, Option.map_eq_some_iff, Prod.mk.injEq] at h
  obtain ⟨⟨inner, after⟩, cut, -, rfl⟩ := h
  have whole := (Chars.eq_of_cut? cut).1
  have first := congrArg List.length (leading_append ']' (leading '!' text).2)
  have mark := congrArg List.length (leading_append '!' text)
  rw [whole] at first
  simp only [List.length_append, List.length_cons] at first mark
  show after.length < text.length
  omega

/-- The parts of a pattern. A bracket that is not closed stands for itself. -/
def parts : List Char → Pattern
  | [] => []
  | '*' :: rest => .anything :: parts rest
  | '?' :: rest => .anyChar :: parts rest
  | '[' :: rest =>
    match _h : bracketed? rest with
    | some (body, after) => setOf body :: parts after
    | none => .char '[' :: parts rest
  | c :: rest => .char c :: parts rest
termination_by text => text.length
decreasing_by
  all_goals simp only [List.length_cons]
  all_goals first
    | omega
    | exact Nat.lt_succ_of_lt (length_lt_of_bracketed? _h)

/-- Whether a character lies in one of the ranges. -/
def inRanges (c : Char) (set : List (Char × Char)) : Bool := set.any fun r => r.1 ≤ c && c ≤ r.2

/-- Whether a part that stands for one character can stand for `c`. -/
def partAccepts (c : Char) : PatternPart → Bool
  | .anything => false
  | .anyChar => true
  | .char d => c = d
  | .oneOf set => inRanges c set
  | .noneOf set => !inRanges c set

/-- Whether `accepts` holds for a rest of the text, the text itself included. -/
def someRest (accepts : List Char → Bool) : List Char → Bool
  | [] => accepts []
  | c :: text => accepts (c :: text) || someRest accepts text

/-- Whether the parts stand for the whole text. -/
def accepts : Pattern → List Char → Bool
  | [], text => text.isEmpty
  | .anything :: rest, text => someRest (accepts rest) text
  | part :: rest, c :: text => partAccepts c part && accepts rest text
  | _ :: _, [] => false

/-- The rests of a text, from the whole text to the empty one. -/
def rests : List Char → List (List Char)
  | [] => [[]]
  | c :: text => (c :: text) :: rests text

/-- Which rests are empty. -/
def atEnd : List Char → List Bool
  | [] => [true]
  | _ :: text => false :: atEnd text

/-- Of marks for the rests of a text, whether a rest or one behind it is marked. -/
def fromHere : List Bool → List Bool
  | [] => []
  | [mark] => [mark]
  | mark :: later :: more =>
    let marks := fromHere (later :: more)
    (mark || marks.headD false) :: marks

/-- Of marks for the rests behind each character, whether a part accepts that character in front
of a marked rest. -/
def afterPart (part : PatternPart) : List Char → List Bool → List Bool
  | c :: text, mark :: marks => (partAccepts c part && mark) :: afterPart part text marks
  | _, _ => [false]

/-- Which rests of a text the parts stand for. Each part looks at each rest once. -/
def accepted : Pattern → List Char → List Bool
  | [], text => atEnd text
  | .anything :: rest, text => fromHere (accepted rest text)
  | part :: rest, text => afterPart part text (accepted rest text).tail

/-- Whether the parts stand for the whole text, in time that the two lengths bound. -/
def recognizes : Pattern → List Char → Bool
  | [], text => text.isEmpty
  | .anything :: rest, text => (accepted rest text).any id
  | part :: rest, c :: text => partAccepts c part && recognizes rest text
  | _ :: _, [] => false

theorem fromHere_map (f : List Char → Bool) (text : List Char) :
    fromHere ((rests text).map f) = (rests text).map (someRest f) := by
  induction text with
  | nil => simp [rests, fromHere, someRest]
  | cons c text ih =>
    cases text with
    | nil => simp [rests, fromHere, someRest]
    | cons d text => simp_all [rests, fromHere, someRest]

theorem afterPart_map (part : PatternPart) (f : List Char → Bool) (text : List Char) :
    afterPart part text ((rests text).map f).tail =
      (rests text).map fun
        | c :: text => partAccepts c part && f text
        | [] => false := by
  induction text with
  | nil => simp [rests, afterPart]
  | cons c text ih =>
    cases text with
    | nil => simp [rests, afterPart]
    | cons d text => simp_all [rests, afterPart]

theorem any_map_rests (f : List Char → Bool) (text : List Char) :
    ((rests text).map f).any id = someRest f text := by
  induction text with
  | nil => simp [rests, someRest]
  | cons c text ih => simp_all [rests, someRest]

/-- The marks say what the parts accept. -/
theorem accepted_eq_map (pattern : Pattern) (text : List Char) :
    accepted pattern text = (rests text).map (accepts pattern) := by
  induction pattern with
  | nil =>
    simp only [accepted]
    induction text with
    | nil => rfl
    | cons c text ih => simp [atEnd, rests, accepts, ih]
  | cons part rest ih =>
    cases part with
    | anything =>
      simp only [accepted, ih, fromHere_map]
      congr
    | _ =>
      simp only [accepted, ih, afterPart_map]
      congr 1
      funext text
      cases text <;> rfl

/-- What is recognized is what the parts accept. -/
theorem recognizes_eq_accepts (pattern : Pattern) (text : List Char) :
    recognizes pattern text = accepts pattern text := by
  induction pattern generalizing text with
  | nil => rfl
  | cons part rest ih =>
    cases part with
    | anything => simp only [recognizes, accepts, accepted_eq_map, any_map_rests]
    | _ => cases text <;> simp [recognizes, accepts, ih]

/-- Whether a pattern stands for a path. -/
def covers (pattern path : String) : Bool := recognizes (parts pattern.toList) path.toList

/-- Whether a path is one of several entries, or one of them is a pattern that stands for it. -/
def anyCovers (entries : List String) (path : String) : Bool :=
  entries.contains path || entries.any fun entry => isPattern entry && covers entry path

end Pattern
end Scaffold
