import Mathlib.Data.Nat.Basic
import Mathlib.Order.Basic
import Scaffold.Proofs.Php.Tokens

/-!
# Expressions of PHP

Expressions, and how the language reads them from tokens: members and calls bind tighter than `===`
and `!==`, these tighter than `&&`, this tighter than `||`, and the choice between two by a test
binds least. Operators of one kind group to the left, except comparisons and choices, which do not
follow each other. An expression that is written out with brackets where it needs them is read back
as it was: `Expr.Formed.ofText?`.
-/

namespace Scaffold.Php
set_option autoImplicit false

inductive Expr where
  | var (name : String)
  | word (name : String)
  | literal (text : String)
  | array (items : List Expr)
  | group (inner : Expr)
  | member (object : Expr) (name : String)
  | static (owner name : String)
  | call (callee : Expr) (arguments : List Expr)
  | compare (op : Comparison) (left right : Expr)
  | both (left right : Expr)
  | either (left right : Expr)
  | choice (test yes no : Expr)
  deriving Repr

namespace Expr

/-- The text that a literal stands for. -/
def literal? : Expr → Option String
  | literal text => some text
  | _ => none

theorem mapM_literal? (texts : List String) : (texts.map literal).mapM literal? = some texts := by
  induction texts with
  | nil => rfl
  | cons text texts ih =>
    rw [List.map_cons, List.mapM_cons, ih]
    rfl

/-- What can be called with arguments. -/
def isCallable : Expr → Bool
  | word _ | member .. | static .. => true
  | _ => false

/-- How tightly the parts of an expression hold together. -/
def level : Expr → Nat
  | choice .. => 0
  | either .. => 1
  | both .. => 2
  | compare .. => 3
  | _ => 4

/-- Items with commas between them are the arguments of a call, or those of an array if nothing is
called. -/
def listing (callee : Option Expr) (items : List Expr) : Expr :=
  match callee with
  | none => array items
  | some f => call f items

end Expr

/-! ## Reading -/

/-- The operators to the left of the operand that is being read, of each level one at most. -/
structure Pending where
  choice : Option (Expr × Option Expr)
  either : Option Expr
  both : Option Expr
  compared : Option (Comparison × Expr)

namespace Pending

def empty : Pending := ⟨none, none, none, none⟩

def isEmpty (p : Pending) : Bool :=
  p.choice.isNone && p.either.isNone && p.both.isNone && p.compared.isNone

/-- The operand with the comparison that waits for it. -/
def comparison (p : Pending) (e : Expr) : Expr :=
  match p.compared with
  | none => e
  | some (op, left) => .compare op left e

def conjunction (p : Pending) (e : Expr) : Expr :=
  match p.both with
  | none => p.comparison e
  | some left => .both left (p.comparison e)

def disjunction (p : Pending) (e : Expr) : Expr :=
  match p.either with
  | none => p.conjunction e
  | some left => .either left (p.conjunction e)

/-- All that waits closed; a choice needs both of its sides. -/
def whole? (p : Pending) (e : Expr) : Option Expr :=
  match p.choice with
  | none => some (p.disjunction e)
  | some (test, some yes) => some (.choice test yes (p.disjunction e))
  | some (_, none) => none

end Pending

@[simp] theorem Pending.whole?_empty (e : Expr) : Pending.empty.whole? e = some e := rfl

@[simp] theorem Pending.isEmpty_empty : Pending.empty.isEmpty := rfl

/-- What an open bracket belongs to, with the items that are complete. -/
inductive Opening where
  | group
  | listing (callee : Option Expr) (items : List Expr)

namespace Opening

def bracketOf (callee : Option Expr) : Bracket := if callee.isSome then .round else .square

/-- The expression that a closing bracket completes; no item may follow the last comma. -/
def close? (bracket : Bracket) (last : Option Expr) : Opening → Option Expr
  | group => if bracket = .round then last.map .group else none
  | listing callee items =>
    if bracket = bracketOf callee ∧ (last.isSome ∨ items = []) then
      some (.listing callee (items ++ last.toList))
    else none

/-- An item that a comma completes. -/
def add? (item : Expr) : Opening → Option Opening
  | group => none
  | listing callee items => some (listing callee (items ++ [item]))

end Opening

/-- How far the tokens have been read: the last operand if there is one, what waits for it, and the
brackets around. -/
structure Reading where
  operand : Option Expr
  pending : Pending
  outer : List (Opening × Pending)

namespace Reading

/-- The next token where an operand has to come. -/
def start? (p : Pending) (outer : List (Opening × Pending)) : Token → Option Reading
  | .var name => some ⟨some (.var name), p, outer⟩
  | .word name => some ⟨some (.word name), p, outer⟩
  | .literal text => some ⟨some (.literal text), p, outer⟩
  | .opening .round => some ⟨none, .empty, (.group, p) :: outer⟩
  | .opening .square => some ⟨none, .empty, (.listing none [], p) :: outer⟩
  | .closing bracket =>
    match outer with
    | (opening, around) :: outer =>
      if p.isEmpty then (opening.close? bracket none).map fun e => ⟨some e, around, outer⟩ else none
    | [] => none
  | _ => none

/-- The next token after an operand. -/
def follow? (e : Expr) (p : Pending) (outer : List (Opening × Pending)) : Token → Option Reading
  | .member name => some ⟨some (.member e name), p, outer⟩
  | .static name =>
    match e with
    | .word owner => some ⟨some (.static owner name), p, outer⟩
    | _ => none
  | .opening .round =>
    if e.isCallable then some ⟨none, .empty, (.listing (some e) [], p) :: outer⟩ else none
  | .compare op =>
    match p.compared with
    | none => some ⟨none, { p with compared := some (op, e) }, outer⟩
    | some _ => none
  | .both => some ⟨none, { p with both := some (p.conjunction e), compared := none }, outer⟩
  | .either =>
    some ⟨none, { p with either := some (p.disjunction e), both := none, compared := none }, outer⟩
  | .question =>
    match p.choice with
    | none => some ⟨none, { Pending.empty with choice := some (p.disjunction e, none) }, outer⟩
    | some _ => none
  | .colon =>
    match p.choice with
    | some (test, none) =>
      some ⟨none, { Pending.empty with choice := some (test, some (p.disjunction e)) }, outer⟩
    | _ => none
  | .comma =>
    match outer with
    | (opening, around) :: outer =>
      (p.whole? e).bind fun item => (opening.add? item).map fun opening =>
        ⟨none, .empty, (opening, around) :: outer⟩
    | [] => none
  | .closing bracket =>
    match outer with
    | (opening, around) :: outer =>
      (p.whole? e).bind fun item => (opening.close? bracket (some item)).map fun e =>
        ⟨some e, around, outer⟩
    | [] => none
  | _ => none

def step? (r : Reading) (token : Token) : Option Reading :=
  match r.operand with
  | none => start? r.pending r.outer token
  | some e => follow? e r.pending r.outer token

def run? (r : Reading) (tokens : List Token) : Option Reading := tokens.foldlM step? r

/-- The expression when no token is left. -/
def finish? (r : Reading) : Option Expr :=
  match r.operand, r.outer with
  | some e, [] => r.pending.whole? e
  | _, _ => none

end Reading

namespace Expr

/-- The expression that all of the tokens make. -/
def ofTokens? (tokens : List Token) : Option Expr :=
  (Reading.run? ⟨none, .empty, []⟩ tokens).bind Reading.finish?

/-- The expression that a text is. -/
def ofText? (text : String) : Option Expr := (tokens? text.toList).bind ofTokens?

/-! ## Writing -/

/-- The tokens of an expression. -/
def tokens : Expr → List Token
  | var name => [.var name]
  | word name => [.word name]
  | literal text => [.literal text]
  | array items =>
    .opening .square :: ([Token.comma].intercalate (items.map tokens) ++ [.closing .square])
  | group e => .opening .round :: (e.tokens ++ [.closing .round])
  | member e name => e.tokens ++ [.member name]
  | static owner name => [.word owner, .static name]
  | call f items =>
    f.tokens ++ .opening .round :: ([Token.comma].intercalate (items.map tokens) ++
      [.closing .round])
  | compare op left right => left.tokens ++ .compare op :: right.tokens
  | both left right => left.tokens ++ .both :: right.tokens
  | either left right => left.tokens ++ .either :: right.tokens
  | choice test yes no => test.tokens ++ .question :: (yes.tokens ++ .colon :: no.tokens)

/-- An expression as text. -/
def chars (e : Expr) : List Char := Token.text e.tokens

theorem chars_group (e : Expr) : (group e).chars = '(' :: (e.chars ++ [')']) := by
  rw [chars, tokens, Token.text_cons, Token.text_append, Token.text_single]
  rfl

theorem toList_array (items : List String) :
    (Php.array items).toList = (array (items.map literal)).chars := by
  have each : (items.map Php.literal).map String.toList =
      ((items.map literal).map tokens).map Token.text := by
    rw [List.map_map, List.map_map, List.map_map]
    refine List.map_congr_left fun item _ => ?_
    simp only [Function.comp_apply, tokens, Token.text_single, Token.chars]
  rw [chars, tokens, Token.text_cons, Token.text_append, Token.text_single, Token.text_intercalate,
    ← each, Php.array, String.toList_append, String.toList_append, Text.toList_join]
  rfl

/-- An expression has brackets wherever an operand holds together less than its operator. -/
inductive Formed : Expr → Prop
  | var {name : String} (named : isName name) : Formed (.var name)
  | word {name : String} (named : isName name) : Formed (.word name)
  | literal {text : String} : Formed (.literal text)
  | array {items : List Expr} (formed : ∀ e ∈ items, Formed e) : Formed (.array items)
  | group {e : Expr} (formed : Formed e) : Formed (.group e)
  | member {e : Expr} {name : String} (formed : Formed e) (tight : e.level = 4)
      (named : isName name) : Formed (.member e name)
  | static {owner name : String} (owned : isName owner)
      (named : isName name) : Formed (.static owner name)
  | call {f : Expr} {items : List Expr} (callee : Formed f) (callable : f.isCallable)
      (formed : ∀ e ∈ items, Formed e) : Formed (.call f items)
  | compare {op : Comparison} {l r : Expr} (left : Formed l) (right : Formed r)
      (tightLeft : l.level = 4) (tightRight : r.level = 4) : Formed (.compare op l r)
  | both {l r : Expr} (left : Formed l) (right : Formed r) (tightLeft : 2 ≤ l.level)
      (tightRight : 3 ≤ r.level) : Formed (.both l r)
  | either {l r : Expr} (left : Formed l) (right : Formed r) (tightLeft : 1 ≤ l.level)
      (tightRight : 2 ≤ r.level) : Formed (.either l r)
  | choice {c y n : Expr} (test : Formed c) (yes : Formed y) (no : Formed n)
      (tightTest : 1 ≤ c.level) (tightYes : 1 ≤ y.level)
      (tightNo : 1 ≤ n.level) : Formed (.choice c y n)

end Expr

/-! ## What is written is read back -/

/-- The level down to which a token closes the operators before it. -/
def Token.closes : Token → Nat
  | .both => 2
  | .either | .question | .colon => 1
  | .comma | .closing _ | .semicolon => 0
  | _ => 4

namespace Pending

/-- Nothing waits at a level or a tighter one. -/
structure Clear (level : Nat) (p : Pending) : Prop where
  choice : level ≤ 0 → p.choice = none
  either : level ≤ 1 → p.either = none
  both : level ≤ 2 → p.both = none
  compared : level ≤ 3 → p.compared = none

variable {p : Pending} {k l : Nat}

theorem Clear.mono (h : p.Clear k) (le : k ≤ l) : p.Clear l :=
  ⟨fun low => h.choice (le.trans low), fun low => h.either (le.trans low), fun low =>
    h.both (le.trans low), fun low => h.compared (le.trans low)⟩

theorem Clear.eq_empty (h : p.Clear 0) : p = .empty := by
  obtain ⟨choice, either, both, compared⟩ := p
  simp only [empty, mk.injEq]
  exact ⟨h.choice le_rfl, h.either (Nat.zero_le _), h.both (Nat.zero_le _),
    h.compared (Nat.zero_le _)⟩

theorem clear_empty : Pending.empty.Clear k :=
  ⟨fun _ => rfl, fun _ => rfl, fun _ => rfl, fun _ => rfl⟩

end Pending

namespace Reading

variable {r r' : Reading} {k l : Nat} {e left right test yes no : Expr} {p : Pending}
  {outer : List (Opening × Pending)} {op : Comparison}

theorem run?_append (r : Reading) (front back : List Token) :
    r.run? (front ++ back) = (r.run? front).bind (·.run? back) := by
  rw [run?, List.foldlM_append]
  rfl

theorem run?_cons (r : Reading) (token : Token) (rest : List Token) :
    r.run? (token :: rest) = (r.step? token).bind (·.run? rest) := by
  rw [run?, List.foldlM_cons]
  rfl

/-- Two readings that nothing tells apart which closes the operators down to a level. -/
structure Alike (level : Nat) (r r' : Reading) : Prop where
  step : ∀ token : Token, token.closes ≤ level → r.step? token = r'.step? token
  finish : r.finish? = r'.finish?

theorem Alike.mono (h : Alike k r r') (le : l ≤ k) : Alike l r r' :=
  ⟨fun token low => h.step token (low.trans le), h.finish⟩

theorem Alike.trans {r'' : Reading} (h : Alike k r r') (h' : Alike k r' r'') : Alike k r r'' :=
  ⟨fun token low => (h.step token low).trans (h'.step token low), h.finish.trans h'.finish⟩

theorem Alike.refl : Alike k r r := ⟨fun _ _ => rfl, rfl⟩

theorem alike_of_whole {e' : Expr} {p' : Pending} (same : p.whole? e = p'.whole? e') :
    Alike 0 ⟨some e, p, outer⟩ ⟨some e', p', outer⟩ := by
  refine ⟨fun token low => ?_, ?_⟩
  · cases token with
    | comma | closing => simp only [step?, follow?, same]
    | semicolon => rfl
    | _ => cases low
  · cases outer with
    | nil => exact same
    | cons => rfl

theorem alike_of_disjunction {e' : Expr} {p' : Pending} (same : p.disjunction e = p'.disjunction e')
    (choice : p.choice = p'.choice) : Alike 1 ⟨some e, p, outer⟩ ⟨some e', p', outer⟩ := by
  have whole : Alike 0 ⟨some e, p, outer⟩ ⟨some e', p', outer⟩ :=
    alike_of_whole (by rw [Pending.whole?, Pending.whole?, same, choice])
  refine ⟨fun token low => ?_, whole.finish⟩
  cases token with
  | either | question | colon => simp only [step?, follow?, same, choice]
  | comma | closing | semicolon => exact whole.step _ le_rfl
  | _ => simp [Token.closes] at low

theorem alike_of_conjunction {e' : Expr} {p' : Pending} (same : p.conjunction e = p'.conjunction e')
    (either : p.either = p'.either) (choice : p.choice = p'.choice) :
    Alike 3 ⟨some e, p, outer⟩ ⟨some e', p', outer⟩ := by
  have wide : Alike 1 ⟨some e, p, outer⟩ ⟨some e', p', outer⟩ :=
    alike_of_disjunction (by rw [Pending.disjunction, Pending.disjunction, same, either]) choice
  refine ⟨fun token low => ?_, wide.finish⟩
  cases token with
  | both => simp only [step?, follow?, same, either, choice]
  | either | question | colon | comma | closing | semicolon =>
    exact wide.step _ (by simp [Token.closes])
  | _ => simp [Token.closes] at low

end Reading

namespace Expr

variable {e f left right test yes no : Expr} {items : List Expr} {name owner : String}
  {token : Token} {p : Pending} {outer : List (Opening × Pending)} {op : Comparison}

/-- After the tokens of an expression the reading goes on as if the expression were one operand. -/
def IsRead (e : Expr) : Prop :=
  ∀ (p : Pending) (outer : List (Opening × Pending)), p.Clear e.level →
    ∃ r, Reading.run? ⟨none, p, outer⟩ e.tokens = some r ∧ r.Alike e.level ⟨some e, p, outer⟩

theorem closes_le (token : Token) : token.closes ≤ 4 := by cases token <;> simp [Token.closes]

theorem IsRead.run?_append (h : e.IsRead) (clear : p.Clear e.level)
    (closes : token.closes ≤ e.level) (rest : List Token) :
    Reading.run? ⟨none, p, outer⟩ (e.tokens ++ token :: rest) =
      (Reading.step? ⟨some e, p, outer⟩ token).bind (·.run? rest) := by
  obtain ⟨r, run, alike⟩ := h p outer clear
  rw [Reading.run?_append, run, Option.bind_some, Reading.run?_cons, alike.step token closes]

/-- Items up to the bracket that closes them. -/
theorem run?_items (callee : Option Expr) (done : List Expr) (each : ∀ e ∈ items, e.IsRead)
    (filled : items = [] → done = []) :
    Reading.run? ⟨none, .empty, (.listing callee done, p) :: outer⟩
      ([Token.comma].intercalate (items.map tokens) ++ [.closing (Opening.bracketOf callee)]) =
    Option.some ⟨Option.some (listing callee (done ++ items)), p, outer⟩ := by
  induction items generalizing done with
  | nil =>
    obtain rfl := filled rfl
    simp [Reading.step?, Reading.start?, Opening.close?, Reading.run?]
  | cons e items ih =>
    have first := each e (List.mem_cons_self ..)
    cases items with
    | nil =>
      rw [List.map_singleton, List.intercalate_singleton,
        first.run?_append Pending.clear_empty (Nat.zero_le _)]
      simp [Reading.step?, Reading.follow?, Opening.close?, Reading.run?]
    | cons next items =>
      have more := ih (done ++ [e]) (fun e mem => each e (List.mem_cons_of_mem _ mem)) (by simp)
      rw [List.map_cons, List.map_cons, List.intercalate_cons_cons, List.append_assoc,
        List.append_assoc, List.singleton_append,
        first.run?_append Pending.clear_empty (Nat.zero_le _), ← List.map_cons]
      simpa [Reading.step?, Reading.follow?, Opening.add?] using more

/-- Two operands with an operator between them, which the first operand is left to and the second
waits for. -/
theorem IsRead.operator (k : Nat) (p' : Pending) {whole : Reading} (readLeft : left.IsRead)
    (readRight : right.IsRead) (clear : p.Clear left.level) (closes : token.closes ≤ left.level)
    (step : Reading.step? ⟨some left, p, outer⟩ token = some ⟨none, p', outer⟩)
    (clear' : p'.Clear right.level) (tight : k ≤ right.level)
    (alike : Reading.Alike k ⟨some right, p', outer⟩ whole) :
    ∃ r, Reading.run? ⟨none, p, outer⟩ (left.tokens ++ token :: right.tokens) = some r ∧
    r.Alike k whole := by
  obtain ⟨r, run, readAlike⟩ := readRight p' outer clear'
  refine ⟨r, ?_, (readAlike.mono tight).trans alike⟩
  rw [readLeft.run?_append clear closes, step, Option.bind_some, run]

/-- Every expression with the brackets it needs is read. -/
theorem Formed.isRead (h : Formed e) : e.IsRead := by
  induction h with
  | var | word | literal | static => exact fun p outer _ => ⟨_, by rw [tokens]; rfl, .refl⟩
  | array formed ih =>
    intro p outer _
    refine ⟨_, ?_, .refl⟩
    rw [tokens, Reading.run?_cons]
    exact run?_items none [] ih fun _ => rfl
  | @group e formed ih =>
    intro p outer _
    refine ⟨_, ?_, .refl⟩
    rw [tokens, Reading.run?_cons]
    refine (ih.run?_append Pending.clear_empty (Nat.zero_le _) []).trans ?_
    simp [Reading.step?, Reading.follow?, Opening.close?, Reading.run?]
  | member formed tight named ih =>
    intro p outer clear
    refine ⟨_, ?_, .refl⟩
    rw [tokens, ih.run?_append (tight ▸ clear) (tight ▸ closes_le _)]
    simp [Reading.step?, Reading.follow?, Reading.run?]
  | @call f items callee callable formed ih each =>
    intro p outer clear
    have tight : f.level = 4 := by cases f <;> simp_all [isCallable, level]
    refine ⟨_, ?_, .refl⟩
    rw [tokens, ih.run?_append (tight ▸ clear) (tight ▸ closes_le _)]
    simp only [Reading.step?, Reading.follow?, callable, if_true, Option.bind_some]
    exact run?_items (some f) [] each fun _ => rfl
  | @compare op l r left right tightLeft tightRight readLeft readRight =>
    intro p outer (clear : p.Clear 3)
    have free := clear.compared le_rfl
    rw [tokens]
    refine readLeft.operator 3 { p with compared := some (op, l) } readRight
      (clear.mono (by omega)) (tightLeft ▸ closes_le _)
        (by simp [Reading.step?, Reading.follow?, free])
      ⟨by omega, by omega, by omega, by omega⟩ (by omega) (Reading.alike_of_conjunction ?_ rfl rfl)
    simp [Pending.conjunction, Pending.comparison, free]
  | @both l r left right tightLeft tightRight readLeft readRight =>
    intro p outer (clear : p.Clear 2)
    have free := clear.both le_rfl
    have free' := clear.compared (by omega)
    have conjunction : p.conjunction l = l := by
      simp [Pending.conjunction, Pending.comparison, free, free']
    rw [tokens]
    refine readLeft.operator 2 { p with both := some l, compared := none } readRight
      (clear.mono tightLeft) tightLeft (by simp [Reading.step?, Reading.follow?, conjunction])
      ⟨by omega, by omega, by omega, fun _ => rfl⟩ (by omega)
      (.mono (Reading.alike_of_conjunction ?_ rfl rfl) (by omega))
    simp [Pending.conjunction, Pending.comparison, free, free']
  | @either l r left right tightLeft tightRight readLeft readRight =>
    intro p outer (clear : p.Clear 1)
    have free := clear.either le_rfl
    have free' := clear.both (by omega)
    have free'' := clear.compared (by omega)
    have disjunction : p.disjunction l = l := by
      simp [Pending.disjunction, Pending.conjunction, Pending.comparison, free, free', free'']
    rw [tokens]
    refine readLeft.operator 1 { p with either := some l, both := none, compared := none } readRight
      (clear.mono tightLeft) tightLeft (by simp [Reading.step?, Reading.follow?, disjunction])
      ⟨by omega, by omega, fun _ => rfl, fun _ => rfl⟩ (by omega)
        (Reading.alike_of_disjunction ?_ rfl)
    simp [Pending.disjunction, Pending.conjunction, Pending.comparison, free, free', free'']
  | @choice c y n test yes no tightTest tightYes tightNo readTest readYes readNo =>
    intro p outer (clear : p.Clear 0)
    obtain rfl := clear.eq_empty
    rw [tokens, readTest.run?_append Pending.clear_empty (by exact tightTest)]
    -- the colon finds the test alone, and nothing is left of it but the second side
    exact readYes.operator 0 ⟨some (c, some y), none, none, none⟩ readNo
      ⟨by omega, fun _ => rfl, fun _ => rfl, fun _ => rfl⟩ (by exact tightYes) rfl
      ⟨by omega, fun _ => rfl, fun _ => rfl, fun _ => rfl⟩ (Nat.zero_le _)
      (Reading.alike_of_whole rfl)

/-- The tokens of an expression are cut apart where they were put together. -/
theorem Formed.reads (h : Formed e) : Token.Reads e.tokens := by
  induction h with
  | var named | word named =>
    rw [tokens]
    exact .single named
  | literal =>
    rw [tokens]
    exact .single rfl
  | @static owner name owned named =>
    have first : Token.Reads [.word owner] := .single owned
    rw [tokens]
    exact first.append rfl (.single named)
  | array formed ih =>
    rw [tokens]
    refine .cons rfl rfl (Token.Reads.append (.intercalate fun tokens mem => ?_) rfl (.single rfl))
    obtain ⟨item, isItem, rfl⟩ := List.mem_map.1 mem
    exact ih item isItem
  | group formed ih =>
    rw [tokens]
    exact .cons rfl rfl (ih.append rfl (.single rfl))
  | member formed tight named ih =>
    rw [tokens]
    exact ih.append rfl (.single named)
  | call callee callable formed ih each =>
    rw [tokens]
    refine ih.append rfl (.cons rfl rfl (Token.Reads.append (.intercalate fun tokens mem =>
      ?_) rfl (.single rfl)))
    obtain ⟨item, isItem, rfl⟩ := List.mem_map.1 mem
    exact each item isItem
  | compare left right tightLeft tightRight readLeft readRight
  | both left right tightLeft tightRight readLeft readRight
  | either left right tightLeft tightRight readLeft readRight =>
    rw [tokens]
    exact readLeft.append rfl (.cons rfl rfl readRight)
  | choice test yes no tightTest tightYes tightNo readTest readYes readNo =>
    rw [tokens]
    exact readTest.append rfl (.cons rfl rfl (readYes.append rfl (.cons rfl rfl readNo)))

theorem Formed.ofTokens? (h : Formed e) : Expr.ofTokens? e.tokens = some e := by
  obtain ⟨r, run, alike⟩ := h.isRead .empty [] Pending.clear_empty
  rw [Expr.ofTokens?, run, Option.bind_some, alike.finish]
  rfl

/-- A text that an expression is written as is read as this expression. -/
theorem Formed.ofText? {text : String} (h : Formed e) (written : text.toList = e.chars) :
    Expr.ofText? text = some e := by
  rw [Expr.ofText?, written, chars, h.reads.tokens?, Option.bind_some, h.ofTokens?]

theorem formed_literals {texts : List String} : (array (texts.map literal)).Formed := by
  refine .array fun e mem => ?_
  obtain ⟨text, -, rfl⟩ := List.mem_map.1 mem
  exact .literal

/-! ## Truth -/

/-- Whether an expression is true, given the truth of the checks it is made of. -/
def holds (check : Expr → Bool) : Expr → Bool
  | group e => e.holds check
  | both left right => left.holds check && right.holds check
  | either left right => left.holds check || right.holds check
  | choice test yes no => if test.holds check then yes.holds check else no.holds check
  | word name => if name = "true" then true else if name = "false" then false else check (word name)
  | e => check e

/-- Expressions with one operator between them, grouped to the left. -/
def joined (operator : Expr → Expr → Expr) : List Expr → Expr
  | [] => .word "false"
  | e :: more => more.foldl operator e

/-- An operator that groups to the left, with its token and its level. -/
structure IsOperator (operator : Expr → Expr → Expr) (token : Token) (k : Nat) : Prop where
  written : ∀ l r : Expr, (operator l r).chars = l.chars ++ token.chars ++ r.chars
  formed : ∀ l r : Expr, Formed l → Formed r → k ≤ l.level → k < r.level → Formed (operator l r)
  level : ∀ l r : Expr, (operator l r).level = k

theorem isOperator_either : IsOperator either .either 1 where
  written l r := by simp [chars, tokens, Token.text_append, Token.text_cons]
  formed _ _ := .either
  level _ _ := rfl

theorem isOperator_both : IsOperator both .both 2 where
  written l r := by simp [chars, tokens, Token.text_append, Token.text_cons]
  formed _ _ := .both
  level _ _ := rfl

variable {parts : List Expr} {check : Expr → Bool} {operator : Expr → Expr → Expr} {k : Nat}

theorem IsOperator.chars_joined (h : IsOperator operator token k) (filled : parts ≠ []) :
    (joined operator parts).chars = token.chars.intercalate (parts.map chars) := by
  obtain ⟨e, more, rfl⟩ := List.exists_cons_of_ne_nil filled
  rw [joined]
  clear filled
  induction more generalizing e with
  | nil => rw [List.map_singleton, List.intercalate_singleton, List.foldl_nil]
  | cons part more ih =>
    rw [List.foldl_cons, ih, List.map_cons, List.map_cons, List.map_cons, h.written]
    cases more <;> simp [List.intercalate_cons_cons]

theorem IsOperator.formed_joined (h : IsOperator operator token k) (filled : parts ≠ [])
    (each : ∀ part ∈ parts, Formed part ∧ k < part.level) : Formed (joined operator parts) := by
  obtain ⟨e, more, rfl⟩ := List.exists_cons_of_ne_nil filled
  rw [joined]
  obtain ⟨⟨formed, tight⟩, rest⟩ := List.forall_mem_cons.1 each
  replace tight := Nat.le_of_lt tight
  clear filled each
  induction more generalizing e with
  | nil => exact formed
  | cons part more ih =>
    obtain ⟨next, rest⟩ := List.forall_mem_cons.1 rest
    exact ih _ rest (h.formed _ _ formed next.1 tight next.2) (h.level _ _).ge

theorem holds_joined_either (filled : parts ≠ []) :
    (joined either parts).holds check = parts.any (·.holds check) := by
  obtain ⟨e, more, rfl⟩ := List.exists_cons_of_ne_nil filled
  rw [joined]
  clear filled
  induction more generalizing e with
  | nil => simp
  | cons part more ih => simp [ih, holds, Bool.or_assoc]

theorem holds_joined_both (filled : parts ≠ []) :
    (joined both parts).holds check = parts.all (·.holds check) := by
  obtain ⟨e, more, rfl⟩ := List.exists_cons_of_ne_nil filled
  rw [joined]
  clear filled
  induction more generalizing e with
  | nil => simp
  | cons part more ih => simp [ih, holds, Bool.and_assoc]

end Expr
end Scaffold.Php
