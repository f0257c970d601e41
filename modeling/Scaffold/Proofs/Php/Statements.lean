import Scaffold.Proofs.Php.Expressions
import Scaffold.Proofs.Php.Scalars

/-!
# Statements of PHP

A line that returns the value of an expression or only evaluates it, as the language reads it. A
name that stands between single quotes as it is need not say itself: `IsVerbatim` is what it takes.

A statement that calls one method after another on a variable is read as a chain: each call with its
arguments as they are written, up to the bracket that closes them. Arguments in which brackets and
single-quoted literals are closed are passed over as they stand (`Passes`), and a chain of such
calls is read back (`chain?_chars`).
-/

namespace Scaffold.Php
set_option autoImplicit false

inductive Statement where
  | returns (value : Expr)
  | runs (call : Expr)

/-- The expression before the semicolon that ends a statement. -/
def body? (tokens : List Token) : Option Expr :=
  match tokens.getLast? with
  | some .semicolon => Expr.ofTokens? tokens.dropLast
  | _ => none

def Statement.ofTokens? : List Token → Option Statement
  | .word "return" :: tokens => (body? tokens).map .returns
  | tokens => (body? tokens).map .runs

/-- The statement that a line is. -/
def Statement.ofText? (line : String) : Option Statement := (tokens? line.toList).bind ofTokens?

/-- Between single quotes the text `raw` says `said`. -/
def Says (raw said : String) : Prop := quoted? (raw.toList ++ ['\'']) = some (said.toList, [])

/-- Between single quotes a text says itself: no quote is in it, no two backslashes follow each
other, and none is at its end. -/
def IsVerbatim (text : String) : Prop := Says text text

instance (raw said : String) : Decidable (Says raw said) := inferInstanceAs (Decidable (_ = _))

instance (text : String) : Decidable (IsVerbatim text) :=
  inferInstanceAs (Decidable (Says text text))

section
variable {raw said text : String} {e : Expr} {chars rest : List Char}

/-- A literal that ends does not hang on what follows. -/
theorem quoted?_append {sentence : List Char} (h : quoted? chars = some (sentence, rest))
    (more : List Char) : quoted? (chars ++ more) = some (sentence, rest ++ more) := by
  induction chars using quoted?.induct generalizing sentence with
  | case1 => cases h
  | case2 tail =>
    obtain ⟨rfl, rfl⟩ := Prod.mk.inj (Option.some.inj h)
    rfl
  | case3 tail ih | case4 tail ih =>
    obtain ⟨⟨inner, last⟩, read, same⟩ := Option.map_eq_some_iff.1 h
    obtain ⟨rfl, rfl⟩ := Prod.mk.inj same
    simp [quoted?, ih read]
  | case5 c tail notQuote notBackslash notEscaped ih =>
    rw [quoted?.eq_5 _ _ notQuote notBackslash notEscaped] at h
    obtain ⟨⟨inner, last⟩, read, same⟩ := Option.map_eq_some_iff.1 h
    obtain ⟨rfl, rfl⟩ := Prod.mk.inj same
    cases tail with
    | nil => cases read
    | cons d tail =>
      rw [List.cons_append, quoted?.eq_5 _ _ notQuote (fun other isBackslash same => ?_)
        fun other isBackslash same => ?_, ih read]
      · rfl
      · exact notBackslash _ isBackslash (by rw [(List.cons.inj same).1])
      · exact notEscaped _ isBackslash (by rw [(List.cons.inj same).1])

/-- A text between quotes is one token. -/
theorem tokens?_quoted (h : Says raw said) :
    tokens? ('\'' :: (raw.toList ++ '\'' :: rest)) = (tokens? rest).map (.literal said :: ·) := by
  refine tokens?_eq_of_sign? (by decide) (by decide) ?_
  have read := quoted?_append h rest
  rw [List.append_assoc, List.singleton_append, List.nil_append] at read
  simp [sign?, read]

theorem body?_tokens (h : e.Formed) : body? (e.tokens ++ [.semicolon]) = some e := by
  rw [body?, List.getLast?_concat, List.dropLast_concat]
  exact h.ofTokens?

end

/-! ## Chains of calls -/

/-- A call in a chain, with its arguments as they are written. -/
structure Link where
  name : String
  arguments : List Char
  deriving DecidableEq

namespace Link

def chars (link : Link) : List Char :=
  '-' :: '>' :: (link.name.toList ++ '(' :: (link.arguments ++ [')']))

/-- The text that is the first argument. -/
def text? (link : Link) : Option String :=
  match link.arguments with
  | '\'' :: rest =>
    (quoted? rest).bind fun p => if p.2 = [] ∨
      p.2.head? = some ',' then some (String.ofList p.1) else none
  | _ => none

/-- The texts of the array that is the only argument. -/
def texts? (link : Link) : Option (List String) :=
  match Expr.ofText? (String.ofList link.arguments) with
  | some (.array items) => items.mapM Expr.literal?
  | _ => none

end Link

/-- What the next character of the arguments of a call stands in. -/
inductive Spot where
  | code
  | literal
  /-- Behind a backslash in a literal. -/
  | escaped
  deriving DecidableEq

/-- What closes the bracket that a character opens. -/
def closer? : Char → Option Char
  | '(' => some ')'
  | '[' => some ']'
  | _ => none

/-- What is neither a bracket nor begins a literal. Characters with which comments, blocks and
literals of other kinds begin are not read. -/
def isPlainCode (c : Char) : Bool :=
  !(['\'', '(', '[', ')', ']', '"', '/', '#', '<', '\x60', '\x7b', '\x7d'].contains c)

/-- What a character leads to among arguments, with the closers of the brackets that are open. -/
def pass? (closers : List Char) : Spot → Char → Option (Spot × List Char)
  | .literal, c =>
    some (if c = '\'' then .code else if c = '\\' then .escaped else .literal, closers)
  | .escaped, _ => some (.literal, closers)
  | .code, c =>
    if c = '\'' then some (.literal, closers)
    else
      match closer? c with
      | some closer => some (.code, closer :: closers)
      | none =>
        if isPlainCode c then some (.code, closers)
        else if closers.head? = some c then some (.code, closers.tail)
        else none

/-- How far a chain has been read behind its variable. -/
inductive Progress where
  | start
  /-- Behind the first character of an arrow. -/
  | arrow
  | method (name : List Char)
  | arguments (name : String) (spot : Spot) (closers read : List Char)
  | ended
  deriving DecidableEq

/-- The next character, with the calls that are complete. -/
def follow? (links : List Link) : Progress → Char → Option (List Link × Progress)
  | .start, c =>
    if c = '-' then some (links, .arrow) else if c = ';' then some (links, .ended) else none
  | .arrow, c => if c = '>' then some (links, .method []) else none
  | .method name, c =>
    if c = '(' then if isName (String.ofList name) then
      some (links, .arguments (String.ofList name) .code [] []) else none
    else if isNameChar c then some (links, .method (name ++ [c])) else none
  | .arguments name spot closers read, c =>
    if spot = .code ∧ closers = [] ∧ c = ')' then some (links ++ [⟨name, read⟩], .start)
    else (pass? closers spot c).map fun next => (links, .arguments name next.1 next.2 (read ++ [c]))
  | .ended, _ => none

/-- What the characters of a text lead to. -/
def followAll? (links : List Link) (progress : Progress) : List Char → Option (List Link × Progress)
  | [] => some (links, progress)
  | c :: text => (follow? links progress c).bind fun next => followAll? next.1 next.2 text

/-- The variable and the calls of a statement that is a chain. -/
def chain? : List Char → Option (String × List Link)
  | '$' :: text =>
    (name? text).bind fun p =>
      match followAll? [] .start p.2 with
      | some (links, .ended) => some (p.1, links)
      | _ => none
  | _ => none

example :
    chain? "$t->a('x)', [1, 2])->b();".toList =
      some ("t", [⟨"a", "'x)', [1, 2]".toList⟩, ⟨"b", []⟩]) := by decide +kernel

/-! ## What is written is read back -/

variable {links more : List Link} {progress : Progress} {chars front back : List Char}
  {name : String}

theorem followAll?_append (links : List Link) (progress : Progress) (front back : List Char) :
    followAll? links progress (front ++ back) =
      (followAll? links progress front).bind fun next => followAll? next.1 next.2 back := by
  induction front generalizing links progress with
  | nil => rfl
  | cons c front ih =>
    rw [List.cons_append, followAll?, followAll?, Option.bind_assoc]
    exact Option.bind_congr fun next _ => ih next.1 next.2

/-- Characters of arguments that are passed over as they stand, however many brackets are open. -/
def Passes (chars : List Char) :
    Prop := ∀ links name closers read, followAll? links (.arguments name .code closers read) chars =
  some (links, .arguments name .code closers (read ++ chars))

theorem Passes.nil : Passes [] := fun links name closers read => by rw [List.append_nil]; rfl

theorem Passes.append (first : Passes front) (second : Passes back) : Passes (front ++ back) := by
  intro links name closers read
  rw [followAll?_append, first, Option.bind_some, second, List.append_assoc]

theorem Passes.plain (plain : ∀ c ∈ chars, isPlainCode c = true) : Passes chars := by
  induction chars with
  | nil => exact .nil
  | cons c chars ih =>
    obtain ⟨first, others⟩ := List.forall_mem_cons.1 plain
    intro links name closers read
    have closes : c ≠ ')' := by
      rintro rfl
      exact absurd first (by decide)
    have quote : c ≠ '\'' := by
      rintro rfl
      exact absurd first (by decide)
    have opens : closer? c = none := by
      unfold closer?
      split
      · exact absurd first (by decide)
      · exact absurd first (by decide)
      · rfl
    have here : follow? links (.arguments name .code closers read) c =
        some (links, .arguments name .code closers (read ++ [c])) := by
      simp [follow?, pass?, closes, quote, opens, first]
    rw [followAll?, here, Option.bind_some, ih others]
    simp

/-- A literal is passed over up to the quote that ends it. -/
theorem followAll?_quoted {said rest : List Char} (h : quoted? chars = some (said, rest)) :
    ∃ body, chars = body ++ rest ∧ ∀ links name closers read,
    followAll? links (.arguments name .literal closers read) body =
      some (links, .arguments name .code closers (read ++ body)) := by
  induction chars using quoted?.induct generalizing said with
  | case1 => cases h
  | case2 text =>
    obtain ⟨-, rfl⟩ := Prod.mk.inj (Option.some.inj h)
    exact ⟨['\''], rfl, fun _ _ _ _ => rfl⟩
  | case3 text ih =>
    obtain ⟨⟨inner, last⟩, ended, same⟩ := Option.map_eq_some_iff.1 h
    obtain ⟨-, rfl⟩ := Prod.mk.inj same
    obtain ⟨body, rfl, passes⟩ := ih ended
    exact ⟨'\\' :: '\\' :: body, rfl, fun links name closers read =>
      by simp [followAll?, follow?, pass?, passes]⟩
  | case4 text ih =>
    obtain ⟨⟨inner, last⟩, ended, same⟩ := Option.map_eq_some_iff.1 h
    obtain ⟨-, rfl⟩ := Prod.mk.inj same
    obtain ⟨body, rfl, passes⟩ := ih ended
    exact ⟨'\\' :: '\'' :: body, rfl, fun links name closers read =>
      by simp [followAll?, follow?, pass?, passes]⟩
  | case5 c text notQuote notBackslash notEscaped ih =>
    rw [quoted?.eq_5 _ _ notQuote notBackslash notEscaped] at h
    obtain ⟨⟨inner, last⟩, ended, same⟩ := Option.map_eq_some_iff.1 h
    obtain ⟨-, rfl⟩ := Prod.mk.inj same
    obtain ⟨body, rfl, passes⟩ := ih ended
    refine ⟨c :: body, rfl, fun links name closers read => ?_⟩
    have other : c ≠ '\'' := fun same => notQuote same
    by_cases backslash : c = '\\'
    · -- a backslash that stands for itself: neither a backslash nor the closing quote follows
      subst backslash
      cases body with
      | nil =>
        have stays := passes links name closers []
        simp [followAll?] at stays
      | cons d body =>
        have plain : d ≠ '\'' ∧ d ≠ '\\' := by
          refine ⟨?_, ?_⟩
          · rintro rfl
            exact notEscaped _ rfl rfl
          · rintro rfl
            exact notBackslash _ rfl rfl
        have further := passes links name closers (read ++ ['\\'])
        simp only [followAll?, follow?, pass?, plain, if_false] at further
        simpa [followAll?, follow?, pass?] using further
    · simp [followAll?, follow?, pass?, passes, other, backslash]

/-- What stands between quotes is passed over, where it ends with the second quote. -/
theorem Passes.quoted {said : List Char} (h : quoted? (chars ++ ['\'']) = some (said, [])) :
    Passes ('\'' :: (chars ++ ['\''])) := by
  obtain ⟨body, same, passes⟩ := followAll?_quoted h
  rw [List.append_nil] at same
  intro links name closers read
  have quote : follow? links (.arguments name .code closers read) '\'' =
      some (links, .arguments name .literal closers (read ++ ['\''])) := by
    simp [follow?, pass?]
  rw [followAll?, quote, Option.bind_some, same, passes]
  simp

theorem Passes.brackets (h : Passes chars) : Passes ('[' :: (chars ++ [']'])) := by
  intro links name closers read
  have opens : follow? links (.arguments name .code closers read) '[' =
      some (links, .arguments name .code (']' :: closers) (read ++ ['['])) := by
    simp [follow?, pass?, closer?]
  have closes (read : List Char) :
      followAll? links (.arguments name .code (']' :: closers) read) [']'] =
      some (links, .arguments name .code closers (read ++ [']'])) := by
    simp [followAll?, follow?, pass?, closer?, isPlainCode]
  rw [followAll?, opens, Option.bind_some, followAll?_append, h, Option.bind_some, closes]
  simp

theorem Passes.literal (text : String) : Passes (Php.literal text).toList := by
  have chars :
      (Php.literal text).toList = '\'' :: (Chars.escape ['\\', '\''] text.toList ++ ['\'']) := by
    simp [Php.literal, Text.escape]
  rw [chars]
  exact .quoted (quoted?_escape text.toList [])

theorem Passes.comma : Passes ", ".toList := .plain (by decide)

/-- Texts between which a comma stands are passed over when each of them is. -/
theorem Passes.joined {texts : List String} (each : ∀ text ∈ texts, Passes text.toList) :
    Passes (Text.join ", " texts).toList := by
  rw [Text.toList_join]
  induction texts with
  | nil => exact .nil
  | cons text texts ih =>
    obtain ⟨first, others⟩ := List.forall_mem_cons.1 each
    cases texts with
    | nil => simpa using first
    | cons next texts =>
      simp only [List.map_cons, List.intercalate_cons_cons] at ih ⊢
      exact (first.append .comma).append (ih others)

theorem Passes.array (items : List String) : Passes (Php.array items).toList := by
  have chars : (Php.array items).toList =
      '[' :: ((Text.join ", " (items.map Php.literal)).toList ++ [']']) := by
    simp [Php.array]
  rw [chars]
  exact .brackets (.joined (List.forall_mem_map.2 fun item _ => .literal item))

/-- A digit is neither a bracket nor begins a literal. -/
theorem isPlainCode_of_isDecimalDigit {c : Char} (digit : Text.isDecimalDigit c = true) :
    isPlainCode c = true := by
  have apart : ∀ d ∈ ['\'', '(', '[', ')', ']', '"', '/', '#', '<', '\x60', '\x7b', '\x7d'],
    Text.isDecimalDigit d = false := by decide
  rw [isPlainCode, Bool.not_eq_true', Bool.eq_false_iff, ne_eq, List.contains_iff_mem]
  intro mark
  exact Bool.false_ne_true ((apart c mark).symm.trans digit)

theorem Passes.number (n : Nat) : Passes (toString n).toList := .plain fun _ mem =>
  isPlainCode_of_isDecimalDigit (isDecimalDigit_of_isDigit (Text.isDigit_of_mem_toString mem))

/-- Numbers are written with a minus, digits, a point and a line feed. -/
theorem mem_of_isNumber {v : String} (h : isNumber v = true) :
    ∀ c ∈ v.toList, Text.isDecimalDigit c = true ∨ c ∈ ['-', '.', '\n'] := by
  have digits (chars : List Char) :
    ∀ c ∈ chars.takeWhile Text.isDecimalDigit, Text.isDecimalDigit c = true :=
    fun c mem => List.mem_takeWhile_imp mem
  have tail (chars : List Char) (ends : isNumberTail chars = true) :
      ∀ c ∈ chars, Text.isDecimalDigit c = true ∨ c ∈ ['-', '.', '\n'] := by
    unfold isNumberTail at ends
    split at ends
    · simp
    · simp
    · rename_i rest
      simp only [Bool.and_eq_true, Bool.or_eq_true, beq_iff_eq] at ends
      intro c mem
      rcases List.mem_cons.1 mem with rfl | mem
      · simp
      · rw [← List.takeWhile_append_dropWhile (p := Text.isDecimalDigit) (l := rest)] at mem
        rcases List.mem_append.1 mem with digit | last
        · exact .inl (digits rest c digit)
        · rcases ends.2 with absent | feed
          · exact absurd (absent ▸ last) List.not_mem_nil
          · exact .inr (by simp [List.mem_singleton.1 (feed ▸ last)])
    · cases ends
  rw [isNumber, Bool.and_eq_true] at h
  have body : ∀ c ∈ (Chars.dropHead? ['-'] v.toList).getD v.toList, Text.isDecimalDigit c = true ∨
      c ∈ ['-', '.', '\n'] := by
    intro c mem
    rw [← List.takeWhile_append_dropWhile (p := Text.isDecimalDigit)
      (l := (Chars.dropHead? ['-'] v.toList).getD v.toList)] at mem
    rcases List.mem_append.1 mem with digit | last
    · exact .inl (digits _ c digit)
    · exact tail _ h.2 c last
  intro c mem
  cases cut : Chars.dropHead? ['-'] v.toList with
  | none => exact body c (by rwa [cut])
  | some rest =>
    rw [Chars.dropHead?_eq_some.1 cut] at mem
    rcases List.mem_cons.1 mem with rfl | mem
    · simp
    · exact body c (by rwa [cut])

/-- What is written for a plain value is passed over. -/
theorem Passes.scalar (v : String) : Passes (Php.scalar v).toList := by
  have others : ∀ d ∈ ['-', '.', '\n'], isPlainCode d = true := by decide
  have words : ∀ v ∈ ["true", "false", "null"], ∀ c ∈ v.toList, isPlainCode c = true := by decide
  rw [Php.scalar]
  split
  · rename_i raw
    refine .plain fun c mem => ?_
    rcases Bool.or_eq_true_iff.1 raw with word | number
    · exact words v (List.contains_iff_mem.1 word) c mem
    · rcases mem_of_isNumber number c mem with digit | other
      · exact isPlainCode_of_isDecimalDigit digit
      · exact others c other
  · exact .literal v

/-- A call with a name of the language, and arguments that are passed over. -/
structure Link.IsFormed (link : Link) : Prop where
  named : isName link.name = true
  passes : Passes link.arguments

theorem followAll?_method (all : ∀ c ∈ chars, isNameChar c = true) (links : List Link)
    (read : List Char) :
    followAll? links (.method read) chars = some (links, .method (read ++ chars)) := by
  induction chars generalizing read with
  | nil => simp [followAll?]
  | cons c chars ih =>
    obtain ⟨first, others⟩ := List.forall_mem_cons.1 all
    have apart : c ≠ '(' := by
      rintro rfl
      exact absurd first (by decide)
    simp [followAll?, follow?, apart, first, ih others]

theorem Link.IsFormed.followAll? {link : Link} (formed : link.IsFormed) (links : List Link) :
    Php.followAll? links .start link.chars = some (links ++ [link], .start) := by
  have arrow (text : List Char) : Php.followAll? links .start ('-' :: '>' :: text) =
      Php.followAll? links (.method []) text := by
    simp [Php.followAll?, follow?]
  have opens : Php.followAll? links (.method link.name.toList) ['('] =
      some (links, .arguments link.name .code [] []) := by
    simp [Php.followAll?, follow?, formed.named]
  have closes : Php.followAll? links (.arguments link.name .code [] link.arguments) [')'] =
      some (links ++ [link], .start) := by
    simp [Php.followAll?, follow?]
  have split_ : link.name.toList ++ '(' :: (link.arguments ++ [')']) = link.name.toList ++
    (['('] ++ (link.arguments ++ [')'])) := rfl
  rw [chars, arrow, split_, followAll?_append,
    followAll?_method (isNameChar_of_isName formed.named), List.nil_append, Option.bind_some,
    followAll?_append, opens, Option.bind_some, followAll?_append, formed.passes, List.nil_append,
    Option.bind_some, closes]

/-- A chain of calls is read back. -/
theorem chain?_chars (named : isName name = true) (formed : ∀ link ∈ links, link.IsFormed) :
    chain? ('$' :: (name.toList ++ (links.flatMap Link.chars ++ [';']))) = some (name, links) := by
  have calls (done : List Link) :
      followAll? done .start (links.flatMap Link.chars) = some (done ++ links, .start) := by
    induction links generalizing done with
    | nil => simp [followAll?]
    | cons link links ih =>
      obtain ⟨first, others⟩ := List.forall_mem_cons.1 formed
      rw [List.flatMap_cons, followAll?_append, first.followAll?, Option.bind_some, ih others]
      simp
  have apart : ∀ c ∈ (links.flatMap Link.chars ++ [';']).head?, isNameChar c = false := by
    cases links with
    | nil => simp [isNameChar, isNameStart]
    | cons link links => simp [Link.chars, isNameChar, isNameStart]
  have last : followAll? ([] ++ links) .start [';'] = some ([] ++ links, .ended) := by
    simp [followAll?, follow?]
  rw [chain?, name?_append named apart, Option.bind_some, followAll?_append, calls,
    Option.bind_some, last]
  rfl

namespace Link

variable {raw said : String}

/-- A literal is the first argument, whatever follows behind a comma. -/
theorem text?_quoted (h : Says raw said) (name : String) {after : List Char}
    (apart : after = [] ∨ after.head? = some ',') :
    text? ⟨name, '\'' :: (raw.toList ++ '\'' :: after)⟩ = some said := by
  have read := quoted?_append h after
  rw [List.append_assoc, List.singleton_append, List.nil_append] at read
  simp [text?, read, apart]

theorem texts?_of_tokens {name : String} {arguments : List Char} {items : List String}
    (read : tokens? arguments = some (Expr.array (items.map .literal)).tokens) :
    texts? ⟨name, arguments⟩ = some items := by
  have expr : Expr.ofText? (String.ofList arguments) = some (.array (items.map .literal)) := by
    rw [Expr.ofText?, String.toList_ofList, read, Option.bind_some, Expr.formed_literals.ofTokens?]
  simp only [texts?, expr, Expr.mapM_literal?]

/-- The items of an array are its texts. -/
theorem texts?_array (name : String) (items : List String) :
    texts? ⟨name, (Php.array items).toList⟩ = some items := by
  refine texts?_of_tokens ?_
  rw [Expr.toList_array, Expr.chars, Expr.formed_literals.reads.tokens?]

/-- The only item of an array is what stands between its quotes. -/
theorem texts?_quoted (h : Says raw said) (name : String) :
    texts? ⟨name, '[' :: '\'' :: (raw.toList ++ ['\'', ']'])⟩ = some [said] := by
  have opens : tokens? ('[' :: '\'' :: (raw.toList ++ '\'' :: [']'])) =
    (tokens? ('\'' :: (raw.toList ++ '\'' :: [']']))).map (.opening .square :: ·) :=
    tokens?_eq_of_sign? (by decide) (by decide) rfl
  have closes : tokens? [']'] = some [.closing .square] := by
    rw [tokens?_eq_of_sign? (by decide) (by decide) rfl, tokens?]
    rfl
  refine texts?_of_tokens ?_
  rw [opens, tokens?_quoted h, closes]
  simp [Expr.tokens]

end Link

end Scaffold.Php
