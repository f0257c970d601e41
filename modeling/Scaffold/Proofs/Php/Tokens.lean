import Mathlib.Data.List.Basic
import Scaffold.Php

/-!
# Tokens of PHP

The tokens that expressions are made of, as the language cuts them: a name goes on as long as it
can, blanks between tokens do not count, and in a single-quoted literal a backslash stands before a
backslash or a quote only. A list of tokens that is written out is read back as it was, piece by
piece: `Token.Reads`.
-/

namespace Scaffold.Php
set_option autoImplicit false

/-- Whether a name may start with a character: a letter, an underscore or anything beyond ASCII. -/
def isNameStart (c : Char) : Bool := c.isAlpha || c == '_' || 128 ≤ c.toNat

def isNameChar (c : Char) : Bool := isNameStart c || c.isDigit

/-- Whether a text is a name of the language. -/
def isName (text : String) : Bool :=
  match text.toList with
  | [] => false
  | c :: rest => isNameStart c && rest.all isNameChar

/-- A name has no other characters. -/
theorem isNameChar_of_isName {name : String} (named : isName name = true) :
    ∀ c ∈ name.toList, isNameChar c = true := by
  unfold isName at named
  split at named
  · cases named
  · rename_i first rest chars
    obtain ⟨starts, others⟩ := Bool.and_eq_true_iff.1 named
    intro c mem
    rw [chars] at mem
    rcases List.mem_cons.1 mem with rfl | mem
    · simp [isNameChar, starts]
    · exact List.all_eq_true.1 others c mem

/-- What separates tokens. -/
def isGap (c : Char) : Bool := c == ' ' || c == '\t' || c == '\n' || c == '\r'

inductive Comparison where
  | identical
  | differs
  deriving DecidableEq, Repr

inductive Bracket where
  | round
  | square
  deriving DecidableEq, Repr

inductive Token where
  | var (name : String)
  | word (name : String)
  | member (name : String)
  | static (name : String)
  | literal (text : String)
  | compare (op : Comparison)
  | both
  | either
  | question
  | colon
  | comma
  | semicolon
  | opening (bracket : Bracket)
  | closing (bracket : Bracket)
  deriving DecidableEq, Repr

namespace Token

/-- How a token is written, with blanks where they are usual. -/
def chars : Token → List Char
  | var name => '$' :: name.toList
  | word name => name.toList
  | member name => '-' :: '>' :: name.toList
  | static name => ':' :: ':' :: name.toList
  | literal text => (Php.literal text).toList
  | compare .identical => [' ', '=', '=', '=', ' ']
  | compare .differs => [' ', '!', '=', '=', ' ']
  | both => [' ', '&', '&', ' ']
  | either => [' ', '|', '|', ' ']
  | question => [' ', '?', ' ']
  | colon => [' ', ':', ' ']
  | comma => [',', ' ']
  | semicolon => [';']
  | opening .round => ['(']
  | closing .round => [')']
  | opening .square => ['[']
  | closing .square => [']']

/-- Whether the names in a token are names of the language. -/
def isNamed : Token → Bool
  | var name | word name | member name | static name => isName name
  | _ => true

/-- Whether a token would go on if a character of a name followed. -/
def isOpenEnded : Token → Bool
  | var _ | word _ | member _ | static _ => true
  | _ => false

def isWord : Token → Bool
  | word _ => true
  | _ => false

end Token

/-- The name at the start of a text. -/
def name? : List Char → Option (String × List Char)
  | [] => none
  | c :: rest =>
    if isNameStart c then some (String.ofList (c :: rest.takeWhile isNameChar),
      rest.dropWhile isNameChar) else none

/-- What a single-quoted literal says, from behind its first quote on. -/
def quoted? : List Char → Option (List Char × List Char)
  | [] => none
  | '\'' :: rest => some ([], rest)
  | '\\' :: '\\' :: rest => (quoted? rest).map fun p => ('\\' :: p.1, p.2)
  | '\\' :: '\'' :: rest => (quoted? rest).map fun p => ('\'' :: p.1, p.2)
  | c :: rest => (quoted? rest).map fun p => (c :: p.1, p.2)

/-- The token at the start of a text that does not start with a name. -/
def sign? : List Char → Option (Token × List Char)
  | '$' :: rest => (name? rest).map fun p => (.var p.1, p.2)
  | '-' :: '>' :: rest => (name? rest).map fun p => (.member p.1, p.2)
  | ':' :: ':' :: rest => (name? rest).map fun p => (.static p.1, p.2)
  | '\'' :: rest => (quoted? rest).map fun p => (.literal (String.ofList p.1), p.2)
  | '=' :: '=' :: '=' :: rest => some (.compare .identical, rest)
  | '!' :: '=' :: '=' :: rest => some (.compare .differs, rest)
  | '&' :: '&' :: rest => some (.both, rest)
  | '|' :: '|' :: rest => some (.either, rest)
  | '?' :: rest => some (.question, rest)
  | ':' :: rest => some (.colon, rest)
  | ',' :: rest => some (.comma, rest)
  | ';' :: rest => some (.semicolon, rest)
  | '(' :: rest => some (.opening .round, rest)
  | ')' :: rest => some (.closing .round, rest)
  | '[' :: rest => some (.opening .square, rest)
  | ']' :: rest => some (.closing .square, rest)
  | _ => none

/-- The token at the start of a text. -/
def token? (text : List Char) : Option (Token × List Char) :=
  match name? text with
  | some (name, rest) => some (.word name, rest)
  | none => sign? text

section
variable {text rest : List Char}

theorem length_lt_of_name? {name : String} (h : name? text = some (name, rest)) :
    rest.length < text.length := by
  unfold name? at h
  split at h
  · cases h
  · rename_i c more
    split at h
    · obtain ⟨-, rfl⟩ := Prod.mk.inj (Option.some.inj h)
      exact Nat.lt_succ_of_le (List.dropWhile_suffix _).length_le
    · cases h

theorem length_lt_of_quoted? {said : List Char} (h : quoted? text = some (said, rest)) :
    rest.length < text.length := by
  induction text using quoted?.induct generalizing said with
  | case1 => cases h
  | case2 more =>
    obtain ⟨-, rfl⟩ := Prod.mk.inj (Option.some.inj h)
    exact Nat.lt_succ_self _
  | case3 more ih | case4 more ih =>
    obtain ⟨⟨said, rest⟩, more, same⟩ := Option.map_eq_some_iff.1 h
    obtain ⟨-, rfl⟩ := Prod.mk.inj same
    exact Nat.lt_trans (ih more) (by simp only [List.length_cons]; omega)
  | case5 c more notQuote notBackslash notEscaped ih =>
    rw [quoted?.eq_5 _ _ notQuote notBackslash notEscaped] at h
    obtain ⟨⟨said, rest⟩, more, same⟩ := Option.map_eq_some_iff.1 h
    obtain ⟨-, rfl⟩ := Prod.mk.inj same
    exact Nat.lt_trans (ih more) (by simp only [List.length_cons]; omega)

theorem length_lt_of_sign? {token : Token} (h : sign? text = some (token, rest)) :
    rest.length < text.length := by
  unfold sign? at h
  split at h
  case h_4 =>
    obtain ⟨⟨said, more⟩, read, same⟩ := Option.map_eq_some_iff.1 h
    obtain ⟨-, rfl⟩ := Prod.mk.inj same
    exact Nat.lt_trans (length_lt_of_quoted? read) (by simp)
  case h_1 | h_2 | h_3 =>
    obtain ⟨⟨name, more⟩, read, same⟩ := Option.map_eq_some_iff.1 h
    obtain ⟨-, rfl⟩ := Prod.mk.inj same
    exact Nat.lt_trans (length_lt_of_name? read) (by simp only [List.length_cons]; omega)
  case h_17 => cases h
  all_goals
    obtain ⟨-, rfl⟩ := Prod.mk.inj (Option.some.inj h)
    simp only [List.length_cons]
    omega

theorem length_lt_of_token? {token : Token} (h : token? text = some (token, rest)) :
    rest.length < text.length := by
  unfold token? at h
  split at h
  · rename_i read
    obtain ⟨-, rfl⟩ := Prod.mk.inj (Option.some.inj h)
    exact length_lt_of_name? read
  · exact length_lt_of_sign? h

end

/-- The tokens of a text. -/
def tokens? : List Char → Option (List Token)
  | [] => some []
  | c :: rest =>
    if isGap c then tokens? rest
    else match _ : token? (c :: rest) with
      | none => none
      | some (token, more) => (tokens? more).map (token :: ·)
termination_by text => text.length
decreasing_by
  · exact Nat.lt_succ_self _
  · exact length_lt_of_token? (by assumption)

/-! ## What is written is read back -/

section
variable {c : Char} {text rest more : List Char} {name : String} {token : Token}
  {tokens others : List Token}

theorem name?_append (named : isName name) (apart : ∀ c ∈ rest.head?, isNameChar c = false) :
    name? (name.toList ++ rest) = some (name, rest) := by
  unfold isName at named
  split at named
  · cases named
  · rename_i c body chars
    obtain ⟨start, others⟩ := Bool.and_eq_true_iff.1 named
    have others : ∀ d ∈ body, isNameChar d := List.all_eq_true.1 others
    have ends : rest.takeWhile isNameChar = [] ∧ rest.dropWhile isNameChar = rest := by
      cases rest with
      | nil => exact ⟨rfl, rfl⟩
      | cons d rest => simp [apart d rfl]
    rw [chars, List.cons_append, name?, if_pos start, List.takeWhile_append_of_pos others,
      List.dropWhile_append_of_pos others, ends.1, ends.2, List.append_nil, ← chars,
      String.ofList_toList]

theorem name?_eq_none (h : isNameStart c = false) : name? (c :: rest) = none := by
  rw [name?, if_neg (by simp [h])]

/-- A literal says the text that was escaped in it. -/
theorem quoted?_escape (text rest : List Char) :
    quoted? (Chars.escape ['\\', '\''] text ++ '\'' :: rest) = some (text, rest) := by
  induction text with
  | nil => rfl
  | cons c text ih =>
    rw [Chars.escape_cons]
    by_cases marked : c ∈ ['\\', '\'']
    · rw [if_pos marked]
      rcases List.mem_pair.1 marked with rfl | rfl <;> simp [quoted?, ih]
    · rw [if_neg marked]
      have plain : c ≠ '\\' ∧ c ≠ '\'' := by simpa using marked
      rw [List.append_assoc, List.singleton_append,
        quoted?.eq_5 _ _ (by simp [plain]) (by simp [plain])
        (by simp [plain]), ih]
      rfl

theorem tokens?_gap (gap : isGap c) : tokens? (c :: rest) = tokens? rest := by
  rw [tokens?, if_pos gap]

theorem tokens?_gaps {gaps : List Char} (each : ∀ c ∈ gaps, isGap c) :
    tokens? (gaps ++ rest) = tokens? rest := by
  induction gaps with
  | nil => rfl
  | cons c gaps ih =>
    obtain ⟨gap, each⟩ := List.forall_mem_cons.1 each
    rw [List.cons_append, tokens?_gap gap, ih each]

theorem tokens?_eq_of_token? (solid : isGap c = false)
    (read : token? (c :: rest) = some (token, more)) :
    tokens? (c :: rest) = (tokens? more).map (token :: ·) := by
  rw [tokens?, if_neg (by simp [solid])]
  split
  · rename_i absent
    rw [read] at absent
    cases absent
  · rename_i same
    obtain ⟨rfl, rfl⟩ := Prod.mk.inj (Option.some.inj (read.symm.trans same))
    rfl

theorem tokens?_eq_of_sign? (solid : isGap c = false) (sign : isNameStart c = false)
    (read : sign? (c :: rest) = some (token, more)) :
    tokens? (c :: rest) = (tokens? more).map (token :: ·) :=
  tokens?_eq_of_token? solid (by rw [token?, name?_eq_none sign]; exact read)

/-- A sign with blanks around it. -/
theorem tokens?_spaced (solid : isGap c = false) (sign : isNameStart c = false)
    (read : sign? (c :: more) = some (token, ' ' :: rest)) :
    tokens? (' ' :: c :: more) = (tokens? rest).map (token :: ·) := by
  rw [tokens?_gap (by decide), tokens?_eq_of_sign? solid sign read, tokens?_gap (by decide)]

theorem not_gap_of_isNameStart (h : isNameStart c) : isGap c = false := by
  by_contra gap
  rw [Bool.not_eq_false] at gap
  simp only [isGap, Bool.or_eq_true, beq_iff_eq] at gap
  rcases gap with ((rfl | rfl) | rfl) | rfl <;> exact absurd h (by decide)

/-- One token is read back. -/
theorem tokens?_chars (named : token.isNamed)
    (apart : token.isOpenEnded → ∀ c ∈ rest.head?, isNameChar c = false) :
    tokens? (token.chars ++ rest) = (tokens? rest).map (token :: ·) := by
  cases token with
  | var name | member name | static name =>
    refine tokens?_eq_of_sign? (by decide) (by decide) ?_
    simp [sign?, name?_append named (apart rfl)]
  | word name =>
    have read := name?_append named (apart rfl)
    cases chars : name.toList with
    | nil => simp [Token.isNamed, isName, chars] at named
    | cons c body =>
      have start : isNameStart c := by
        simp only [Token.isNamed, isName, chars, Bool.and_eq_true] at named
        exact named.1
      rw [chars] at read
      rw [Token.chars, chars]
      refine tokens?_eq_of_token? (not_gap_of_isNameStart start) ?_
      show token? (c :: body ++ rest) = _
      rw [token?, read]
  | literal text =>
    have chars : (Token.literal text).chars ++ rest =
        '\'' :: (Chars.escape ['\\', '\''] text.toList ++ '\'' :: rest) := by
      simp [Token.chars, literal, Text.escape]
    rw [chars]
    refine tokens?_eq_of_sign? (by decide) (by decide) ?_
    simp [sign?, quoted?_escape]
  | compare op => cases op <;> exact tokens?_spaced (by decide) (by decide) (by rfl)
  | both | either | question | colon => exact tokens?_spaced (by decide) (by decide) (by rfl)
  | comma =>
    refine (tokens?_eq_of_sign? (by decide) (by decide) (by rfl)).trans ?_
    exact congrArg _ (tokens?_gap (by decide))
  | semicolon => exact tokens?_eq_of_sign? (by decide) (by decide) (by rfl)
  | opening bracket | closing bracket =>
    cases bracket <;> exact tokens?_eq_of_sign? (by decide) (by decide) (by rfl)

end

namespace Token

variable {token next : Token} {tokens others : List Token}

/-- Tokens one after another. -/
def text (tokens : List Token) : List Char := tokens.flatMap chars

theorem text_append (tokens others : List Token) :
    text (tokens ++ others) = text tokens ++ text others :=
  List.flatMap_append

theorem text_cons (token : Token) (tokens : List Token) :
    text (token :: tokens) = token.chars ++ text tokens :=
  List.flatMap_cons

theorem text_single (token : Token) : text [token] = token.chars := List.flatMap_singleton ..

theorem text_intercalate (lists : List (List Token)) :
    text ([comma].intercalate lists) = [',', ' '].intercalate (lists.map text) := by
  induction lists with
  | nil => rfl
  | cons tokens lists ih =>
    cases lists with
    | nil => rw [List.intercalate_singleton, List.map_singleton, List.intercalate_singleton]
    | cons next lists =>
      simp only [List.map_cons, List.intercalate_cons_cons, text_append, text_single, chars] at ih ⊢
      rw [ih]

/-- A list of tokens is read back, wherever no character of a name follows. -/
def Reads (tokens : List Token) : Prop :=
  ∀ rest : List Char, (∀ c ∈ rest.head?, isNameChar c = false) →
    tokens? (text tokens ++ rest) = (tokens? rest).map (tokens ++ ·)

/-- Only a word starts with a character of a name. -/
theorem apart_chars (h : token.isWord = false) (rest : List Char) :
    ∀ c ∈ (token.chars ++ rest).head?, isNameChar c = false := by
  cases token with
  | word => cases h
  | compare op => cases op <;> exact fun c mem => by cases mem; decide
  | opening bracket | closing bracket => cases bracket <;> exact fun c mem => by cases mem; decide
  | literal text =>
    intro c mem
    rw [chars, Php.literal, String.toList_append, String.toList_append, List.append_assoc,
      List.append_assoc] at mem
    cases mem
    decide
  | _ => exact fun c mem => by cases mem; decide

theorem Reads.nil : Reads [] := fun rest _ => by simp [text]

theorem Reads.single (named : token.isNamed) : Reads [token] := fun rest apart => by
  rw [text, List.flatMap_singleton, tokens?_chars named fun _ => apart]
  rfl

/-- After a token that has an end of its own anything may follow. -/
theorem Reads.cons (named : token.isNamed) (ended : token.isOpenEnded = false) (h : Reads tokens) :
    Reads (token :: tokens) := fun rest apart => by
  rw [text, List.flatMap_cons, List.append_assoc, tokens?_chars named (by simp [ended]),
    ← text, h rest apart, Option.map_map]
  rfl

/-- After any tokens a token may follow that is no word. -/
theorem Reads.append (h : Reads tokens) (apart : next.isWord = false)
    (more : Reads (next :: others)) : Reads (tokens ++ next :: others) := fun rest free => by
  have follows :
      text (tokens ++ next :: others) ++ rest = text tokens ++ (text (next :: others) ++ rest) := by
    simp [text]
  have start : text (next :: others) ++ rest = next.chars ++ (text others ++ rest) := by simp [text]
  rw [follows, h _ (by rw [start]; exact apart_chars apart _), more rest free, Option.map_map]
  congr 1
  funext after
  simp

/-- Lists of tokens with commas between them. -/
theorem Reads.intercalate {lists : List (List Token)} (each : ∀ tokens ∈ lists, Reads tokens) :
    Reads ([comma].intercalate lists) := by
  induction lists with
  | nil => exact .nil
  | cons tokens lists ih =>
    have first := each tokens (List.mem_cons_self ..)
    cases lists with
    | nil => simpa using first
    | cons next lists =>
      have more := ih fun tokens mem => each tokens (List.mem_cons_of_mem _ mem)
      rw [List.intercalate_cons_cons, List.append_assoc]
      exact first.append rfl (.cons rfl rfl more)

/-- A text of tokens that are read back has just these tokens. -/
theorem Reads.tokens? (h : Reads tokens) : Php.tokens? (text tokens) = some tokens := by
  have read := h [] (by simp)
  simpa [Php.tokens?] using read

end Token
end Scaffold.Php
