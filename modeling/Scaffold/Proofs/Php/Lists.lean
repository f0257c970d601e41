import Scaffold.Proofs.Php.Expressions

/-!
# Lists of PHP

Where a list ends, as the language reads code that people write: its bracket closes it, unless the
bracket belongs to a list inside, to a comment or to a literal. What stands behind the bracket has
no part in that (`Php.exists_of_closing?`).

A list of single-quoted literals gives back the texts that were written in it, whatever these are,
and everything behind its bracket is left over (`Php.shortArray?_array`).
-/

namespace Scaffold.Php
set_option autoImplicit false

/-- What the next character stands in. Heredocs are read like other code. -/
inductive Context where
  | code
  /-- Behind a slash, with which a comment may begin. -/
  | slash
  /-- Behind a hash, with which a comment begins, or an attribute. -/
  | hash
  /-- A comment up to the end of the line. -/
  | line
  /-- A comment between stars. -/
  | block
  /-- Behind a star that may end a comment. -/
  | star
  | literal (quote : Char)
  /-- Behind a backslash in a literal. -/
  | escaped (quote : Char)
  deriving DecidableEq, Repr

namespace Context

/-- What begins in code. -/
def begun (c : Char) : Context :=
  if c = '/' then slash
  else if c = '#' then hash
  else if c = '\'' ∨ c = '"' ∨ c = '\x60' then literal c
  else code

def next : Context → Char → Context
  | code, c => begun c
  | slash, c => if c = '/' then line else if c = '*' then block else begun c
  | hash, c => if c = '[' ∨ c = '\n' ∨ c = '\r' then code else line
  | line, c => if c = '\n' ∨ c = '\r' then code else line
  | block, c => if c = '*' then star else block
  | star, c => if c = '/' then code else if c = '*' then star else block
  | literal quote, c =>
    if c = quote then code else if c = '\\' then escaped quote else literal quote
  | escaped quote, _ => literal quote

/-- Whether a bracket that comes next opens a list, or an attribute. -/
def opens : Context → Bool
  | code | slash | hash => true
  | _ => false

/-- Whether a bracket that comes next closes one. -/
def closes : Context → Bool
  | code | slash => true
  | _ => false

/-- How many lists inside are open behind a character, unless it closes the list itself. -/
def depth? (context : Context) (c : Char) (depth : Nat) : Option Nat :=
  if c = ']' ∧ context.closes then if depth = 0 then none else some (depth - 1)
  else if c = '[' ∧ context.opens then some (depth + 1)
  else some depth

theorem eq_of_depth?_eq_none {context : Context} {c : Char} {depth : Nat}
    (h : context.depth? c depth = none) : c = ']' := by
  unfold depth? at h
  split at h
  · exact ‹c = ']' ∧ _›.1
  · split at h <;> cases h

end Context

/-- The place of the bracket that closes a list, of which a text is the rest, with so many lists
inside open. -/
def closing? (context : Context) (depth : Nat) : List Char → Option Nat
  | [] => none
  | c :: text =>
    match context.depth? c depth with
    | none => some 0
    | some depth => (closing? (context.next c) depth text).map (· + 1)

example : closing? .code 0 "/* ] */ [ ']' ], // ]\n #[A] b, ] ]".toList = some 31 := by
  decide +kernel

/-- What closes a list is a bracket, and closes it whatever stands behind it. -/
theorem exists_of_closing? {context : Context} {depth place : Nat} {text : List Char}
    (h : closing? context depth text = some place) :
    ∃ items rest, text = items ++ ']' :: rest ∧ items.length = place ∧
      ∀ other, closing? context depth (items ++ ']' :: other) = some place := by
  induction context, depth, text using closing?.induct generalizing place with
  | case1 => cases h
  | case2 context depth c text last =>
    have closes : ∀ text, closing? context depth (c :: text) = some 0 := fun text => by
      rw [closing?, last]
    obtain rfl := Context.eq_of_depth?_eq_none last
    obtain rfl := Option.some.inj (h.symm.trans (closes text))
    exact ⟨[], text, rfl, rfl, closes⟩
  | case3 context depth c text inner open_ ih =>
    have goesOn : ∀ text, closing? context depth (c :: text) =
      (closing? (context.next c) inner text).map (· + 1) :=
      fun text => by rw [closing?, open_]
    obtain ⟨later, found, rfl⟩ := Option.map_eq_some_iff.1 ((goesOn text).symm.trans h)
    obtain ⟨items, rest, rfl, rfl, stays⟩ := ih found
    exact ⟨c :: items, rest, rfl, rfl, fun other => by rw [List.cons_append, goesOn, stays]; rfl⟩

/-- The place of the bracket that closes the list which was opened in front of a place. -/
def closingFrom? (opened : Nat) (text : List Char) : Option Nat :=
  (closing? .code 0 (text.drop opened)).map (· + opened)

theorem exists_of_closingFrom? {front rest : List Char} {place : Nat}
    (h : closingFrom? front.length (front ++ rest) = some place) :
    ∃ items tail, rest = items ++ ']' :: tail ∧
      (front ++ items).length = place ∧
      ∀ other, closingFrom? front.length (front ++ (items ++ ']' :: other)) = some place := by
  rw [closingFrom?, List.drop_left] at h
  obtain ⟨later, found, rfl⟩ := Option.map_eq_some_iff.1 h
  obtain ⟨items, tail, rfl, rfl, stays⟩ := exists_of_closing? found
  refine ⟨items, tail, rfl, by rw [List.length_append, Nat.add_comm], fun other => ?_⟩
  rw [closingFrom?, List.drop_left, stays]
  rfl

/-! ## Lists of literals -/

/-- The text of the single-quoted literal that comes next, and the code that comes next behind
it. -/
def item? (text : List Char) : Option (String × List Char) :=
  match text.dropWhile isGap with
  | '\'' :: body => (quoted? body).map fun p => (String.ofList p.1, p.2.dropWhile isGap)
  | _ => none

theorem length_lt_of_item? {text next : List Char} {said : String}
    (h : item? text = some (said, next)) : next.length < text.length := by
  unfold item? at h
  split at h
  · rename_i body first
    obtain ⟨⟨inner, more⟩, read, same⟩ := Option.map_eq_some_iff.1 h
    obtain ⟨-, rfl⟩ := Prod.mk.inj same
    have front := (List.dropWhile_suffix isGap (l := text)).length_le
    have back := (List.dropWhile_suffix isGap (l := more)).length_le
    have literal := length_lt_of_quoted? read
    rw [first, List.length_cons] at front
    dsimp only
    omega
  · cases h

/-- The texts of a list of single-quoted literals from behind its opening bracket on, and what is
left behind its closing one. A comma may follow the last literal. Comments between literals are left
out. -/
def literals? (text : List Char) : Option (List String × List Char) :=
  match _ : item? text with
  | some (said, ']' :: rest) => some ([said], rest)
  | some (said, ',' :: rest) => (literals? rest).map fun p => (said :: p.1, p.2)
  | some _ => none
  | none =>
    match text.dropWhile isGap with
    | ']' :: rest => some ([], rest)
    | _ => none
termination_by text.length
decreasing_by
  have shorter := length_lt_of_item? ‹item? text = _›
  exact Nat.lt_of_succ_lt shorter

/-- The texts of a short array of single-quoted literals at the start of a text, and what is left
behind it. -/
def shortArray? (text : List Char) : Option (List String × List Char) :=
  match text.dropWhile isGap with
  | '[' :: rest => literals? rest
  | _ => none

example :
    shortArray? "[ 'a','it\\'s', '\\n\\\\' , ];".toList = some (["a", "it's", "\\n\\"], [';']) := by
  decide +kernel

/-- A literal with code behind it is the next item, up to its last quote. -/
theorem item?_literal (text : String) (rest : List Char) :
    item? ((literal text).toList ++ rest) = some (text, rest.dropWhile isGap) := by
  have solid (body : List Char) : ('\'' :: body).dropWhile isGap = '\'' :: body := rfl
  have chars : (literal text).toList ++ rest =
      '\'' :: (Chars.escape ['\\', '\''] text.toList ++ '\'' :: rest) := by
    simp [literal, Text.escape]
  rw [chars, item?, solid]
  simp [quoted?_escape]

theorem literals?_comma {text rest : List Char} {said : String}
    (h : item? text = some (said, ',' :: rest)) :
    literals? text = (literals? rest).map fun p => (said :: p.1, p.2) := by
  rw [literals?]
  split <;> simp_all

theorem literals?_last {text rest : List Char} {said : String}
    (h : item? text = some (said, ']' :: rest)) :
    literals? text = some ([said], rest) := by
  rw [literals?]
  split <;> simp_all

theorem literals?_gap {c : Char} (gap : isGap c = true) (text : List Char) :
    literals? (c :: text) = literals? text := by
  have same : item? (c :: text) = item? text := by rw [item?, item?, List.dropWhile_cons_of_pos gap]
  rw [literals?, literals?, same, List.dropWhile_cons_of_pos gap]

theorem literals?_intercalate (items : List String) (rest : List Char) :
    literals? ([',', ' '].intercalate (items.map fun item => (literal item).toList) ++
      ']' :: rest) = some (items, rest) := by
  induction items with
  | nil =>
    have absent : item? (']' :: rest) = none := rfl
    rw [List.map_nil, List.intercalate_nil, List.nil_append, literals?]
    split <;> simp_all [isGap]
  | cons item items ih =>
    cases items with
    | nil =>
      rw [List.map_singleton, List.intercalate_singleton]
      exact literals?_last (item?_literal item _)
    | cons next items =>
      have goesOn := literals?_comma (item?_literal item (',' :: ' ' ::
        ([',', ' '].intercalate ((next :: items).map fun item => (literal item).toList) ++
          ']' :: rest)))
      rw [literals?_gap (by decide), ih] at goesOn
      simpa [List.intercalate_cons_cons] using goesOn

theorem toList_array (items : List String) :
    (array items).toList =
      '[' :: ([',', ' '].intercalate (items.map fun item => (literal item).toList) ++ [']']) := by
  simp [array, Text.toList_join, Function.comp_def]

/-- An array of literals gives back the texts it was written for, to a reader of such arrays with
everything behind its bracket left over, and to the language as an expression. -/
theorem shortArray?_array (items : List String) (rest : List Char) :
    shortArray? ((array items).toList ++ rest) = some (items, rest) ∧
      Expr.ofText? (array items) = some (.array (items.map .literal)) := by
  refine ⟨?_, Expr.formed_literals.ofText? (Expr.toList_array items)⟩
  have solid (rest : List Char) : ('[' :: rest).dropWhile isGap = '[' :: rest := rfl
  rw [toList_array, List.cons_append, List.append_assoc, List.singleton_append, shortArray?, solid]
  exact literals?_intercalate items rest

end Scaffold.Php
