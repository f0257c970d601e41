import Mathlib.Data.List.Basic
import Mathlib.Data.List.Forall2
import Scaffold.Proofs.Outcomes
import Scaffold.Proofs.Php.Tokens
import Scaffold.Proofs.Text.Pieces
import Scaffold.Proofs.Text.Searching
import Scaffold.Render.Page

/-!
# Lines of a class

What the lines of a class tell about its methods: which they open, and which they call on the object
itself. `Tells` follows the functions that write the lines, piece by piece.
-/

namespace Scaffold.Render
set_option autoImplicit false

variable {lines more names others calls others' body : List String}
  {line name heading text : String} {chars : List Char}

/-! ## Methods opened and methods called -/

/-- How a line begins that opens a method. -/
def openings : List String := ["    public function ", "    protected function "]

def isHeading (line : String) : Bool := openings.any fun start => Text.startsWith start line

/-- A line opens a method of this name. -/
def Opens (line name : String) : Prop :=
  ∃ start ∈ openings, Text.startsWith (start ++ name ++ "(") line = true

/-- One of the lines opens a method of this name. -/
def Declares (lines : List String) (name : String) : Prop := ∃ line ∈ lines, Opens line name

/-- The lines open these methods, in this order. -/
def Writes (lines names : List String) : Prop := List.Forall₂ Opens (lines.filter isHeading) names

/-- The characters of a list of variables. -/
def isArgumentChar (c : Char) : Bool := Php.isNameChar c || c == '$' || c == ',' || c == ' '

/-- A line calls a method of the class that it stands in and hands variables over to it; it may keep
the result in another one. -/
def Calls (line name : String) : Prop :=
  Php.isName name = true ∧ ∃ width target arguments,
    (target = "" ∨ ∃ result, Php.isName result = true ∧ target = "$" ++ result ++ " = ") ∧
    arguments ≠ "" ∧ (∀ c ∈ arguments.toList, isArgumentChar c = true) ∧
    line = Text.repeated ' ' width ++ target ++ "$this->" ++ name ++ "(" ++ arguments ++ ");"

theorem startsWith_iff {head : String} :
    Text.startsWith head text = true ↔ head.toList <+: text.toList :=
  Chars.isSome_dropHead?

theorem Opens.isHeading (h : Opens line name) : isHeading line = true := by
  obtain ⟨start, mem, starts⟩ := h
  refine List.any_eq_true.2 ⟨start, mem, ?_⟩
  rw [startsWith_iff] at starts ⊢
  refine List.IsPrefix.trans ?_ starts
  simp [String.toList_append]

/-- The characters of a call apart from the name and the arguments. -/
def isCallChar (c : Char) : Bool := isArgumentChar c || ['=', '-', '>', '(', ')', ';'].contains c

/-- A call seen as characters: no hyphen stands before or after that of the arrow, and no bracket
among the arguments. -/
structure HasCall (line name : List Char) : Prop where
  named : ∀ c ∈ name, Php.isNameChar c = true
  parts : ∃ front arguments,
    line = front ++ '-' :: '>' :: (name ++ '(' :: (arguments ++ [')', ';'])) ∧ arguments ≠ [] ∧
    (∀ c ∈ front, (isArgumentChar c || c == '=') = true) ∧
    (∀ c ∈ arguments, isArgumentChar c = true) ∧ front.find? (· != ' ') = some '$'

theorem Calls.hasCall (h : Calls line name) : HasCall line.toList name.toList := by
  obtain ⟨named, width, target, arguments, isTarget, filled, handed, rfl⟩ := h
  refine ⟨Php.isNameChar_of_isName named,
    List.replicate width ' ' ++ (target.toList ++ ['$', 't', 'h', 'i', 's']),
    arguments.toList, ?_, ?_, ?_, handed, ?_⟩
  · simp [Text.repeated]
  · simpa using filled
  · have gap : (isArgumentChar ' ' || ' ' == '=') = true := by decide
    have this : ∀ c ∈ ['$', 't', 'h', 'i', 's'], (isArgumentChar c || c == '=') = true := by decide
    have inTarget : ∀ c ∈ target.toList, (isArgumentChar c || c == '=') = true := by
      rcases isTarget with rfl | ⟨result, named, rfl⟩
      · simp
      · intro c mem
        simp only [String.toList_append, List.mem_append] at mem
        rcases mem with (mem | mem) | mem
        · exact (by decide : ∀ c ∈ "$".toList, (isArgumentChar c || c == '=') = true) c mem
        · simp [isArgumentChar, Php.isNameChar_of_isName named c mem]
        · exact (by decide : ∀ c ∈ " = ".toList, (isArgumentChar c || c == '=') = true) c mem
    intro c mem
    rw [List.mem_append, List.mem_append] at mem
    rcases mem with mem | mem | mem
    · exact List.eq_of_mem_replicate mem ▸ gap
    · exact inTarget c mem
    · exact this c mem
  · have blanks : (List.replicate width ' ').find? (· != ' ') = none := by simp
    rw [List.find?_append, blanks, Option.none_or]
    rcases isTarget with rfl | ⟨result, -, rfl⟩
    · rfl
    · simp

namespace HasCall

variable {line name other front rest : List Char}

theorem isCallChar (h : HasCall line name) : ∀ c ∈ line, isCallChar c = true := by
  obtain ⟨named, front, arguments, rfl, -, before, handed, -⟩ := h
  have sign : ∀ c ∈ ['-', '>', '(', ')', ';'], Render.isCallChar c = true := by decide
  intro c mem
  simp only [List.mem_append, List.mem_cons, List.not_mem_nil, or_false] at mem
  rcases mem with mem | rfl | rfl | mem | rfl | mem | rfl | rfl
  · rcases Bool.or_eq_true_iff.1 (before c mem) with argument | equals
    · simp [Render.isCallChar, argument]
    · simp [Render.isCallChar, eq_of_beq equals]
  · exact sign _ (by simp)
  · exact sign _ (by simp)
  · simp [Render.isCallChar, isArgumentChar, named c mem]
  · exact sign _ (by simp)
  · simp [Render.isCallChar, handed c mem]
  · exact sign _ (by simp)
  · exact sign _ (by simp)

/-- After its blanks, a call starts with a dollar sign. -/
theorem find?_eq (h : HasCall line name) : line.find? (· != ' ') = some '$' := by
  obtain ⟨-, front, arguments, rfl, -, -, -, first⟩ := h
  rw [List.find?_append, first, Option.some_or]

/-- Behind any arrow of the line stands the name. -/
theorem eq_of_arrow (h : HasCall line name)
    (whole : line = front ++ '-' :: '>' :: (other ++ '(' :: rest)) :
    name = other ∧ ∃ arguments, arguments ≠ [] ∧ rest = arguments ++ [')', ';'] := by
  obtain ⟨named, before, arguments, call, filled, inFront, handed, -⟩ := h
  have noHyphen : '-' ∉ before := fun mem => absurd (inFront _ mem) (by decide)
  have unnamed : '-' ∉ '>' :: (name ++ '(' :: (arguments ++ [')', ';'])) := by
    simp only [List.mem_cons, List.mem_append, List.not_mem_nil, or_false, not_or]
    refine ⟨by decide, fun mem => absurd (named _ mem) (by decide), by
      decide, fun mem => absurd (handed _ mem) (by decide),
      by decide, by decide⟩
  have noBracket : '(' ∉ name := fun mem => absurd (named _ mem) (by decide)
  have unbracketed : '(' ∉ arguments ++ [')', ';'] := by
    simp only [List.mem_cons, List.mem_append, List.not_mem_nil, or_false, not_or]
    exact ⟨fun mem => absurd (handed _ mem) (by decide), by decide, by decide⟩
  -- the line has one hyphen and one bracket that opens, and on both sides of the equation they are
  -- these
  obtain ⟨-, -, after⟩ :=
    (List.append_cons_inj_of_notMem noHyphen unnamed).1 (call.symm.trans whole)
  obtain ⟨rfl, -, rfl⟩ :=
    (List.append_cons_inj_of_notMem noBracket unbracketed).1 (List.cons.inj after).2
  exact ⟨rfl, arguments, filled, rfl⟩

end HasCall

/-! ## Lines that do neither -/

/-- However far it is indented, the line calls no method of its class. -/
def IsSilent (line : String) : Prop := ∀ width name, ¬ Calls (Text.repeated ' ' width ++ line) name

/-- The line neither opens a method nor calls one of its class. -/
structure IsInert (line : String) : Prop where
  silent : IsSilent line
  plain : isHeading line = false

/-- How a line begins can be enough to see that it calls no method: it does not begin with a
variable, or has a character that calls do not have. -/
def startsSilent (chars : List Char) : Bool :=
  (chars.find? (· != ' ')).any (· != '$') || chars.any fun c => !isCallChar c

theorem isSilent_append (silent : startsSilent chars = true) (back : String) :
    IsSilent (String.ofList chars ++ back) := by
  intro width name calls
  have hasCall := calls.hasCall
  simp only [String.toList_append, String.toList_ofList, Text.repeated] at hasCall
  rcases Bool.or_eq_true_iff.1 silent with start | char
  · obtain ⟨c, found, other⟩ := (Option.any_eq_true _ _).1 start
    have first := hasCall.find?_eq
    have blanks : (List.replicate width ' ').find? (· != ' ') = none := by simp
    rw [List.find?_append, blanks, Option.none_or, List.find?_append, found,
      Option.some_or] at first
    rw [Option.some.inj first] at other
    exact absurd other (by decide)
  · obtain ⟨c, mem, strange⟩ := List.any_eq_true.1 char
    have allowed := hasCall.isCallChar c (by simp [mem])
    rw [allowed] at strange
    exact absurd strange (by decide)

theorem isSilent_ofList (silent : startsSilent chars = true) : IsSilent (String.ofList chars) := by
  have whole := isSilent_append silent ""
  rwa [String.append_empty] at whole

theorem isSilent_of_mem (c : Char) (mem : c ∈ line.toList) (strange : isCallChar c = false) :
    IsSilent line := by
  intro width name calls
  have allowed := calls.hasCall.isCallChar c (by simp [mem])
  rw [strange] at allowed
  exact Bool.noConfusion allowed

/-- A call without arguments hands nothing over. -/
theorem isSilent_of_noArguments (front name : String)
    (whole : line.toList = (front ++ "->" ++ name ++ "();").toList) :
    IsSilent line := by
  intro width called isCall
  have parts : (Text.repeated ' ' width ++ line).toList =
      (List.replicate width ' ' ++ front.toList) ++
        '-' :: '>' :: (name.toList ++ '(' :: [')', ';']) := by
    simp [Text.repeated, whole]
  obtain ⟨-, arguments, filled, rest⟩ := isCall.hasCall.eq_of_arrow parts
  rw [List.self_eq_append_left] at rest
  exact filled rest

theorem isSilent_empty : IsSilent "" := by
  intro width name calls
  have dash := calls.hasCall.find?_eq
  simp [Text.repeated] at dash

theorem repeated_append (width more : Nat) (text : String) :
    Text.repeated ' ' width ++ (Text.repeated ' ' more ++ text) = Text.repeated ' '
      (width + more) ++ text := by
  rw [← String.append_assoc]
  simp [Text.repeated, ← String.ofList_append]

theorem IsSilent.indented (silent : IsSilent line) (width : Nat) :
    IsSilent (Text.repeated ' ' width ++ line) := by
  intro more name
  rw [repeated_append]
  exact silent _ name

theorem IsSilent.not_calls (silent : IsSilent line) : ¬ Calls line name := by
  have here := silent 0 name
  rwa [Text.repeated, List.replicate_zero, String.ofList_nil, String.empty_append] at here

/-- How every opening begins. -/
def openingStart : List Char := [' ', ' ', ' ', ' ', 'p']

/-- How a line begins can be enough to see that it opens no method. -/
def startsPlain (chars : List Char) : Bool :=
  !openingStart.isPrefixOf chars && !chars.isPrefixOf openingStart

theorem isHeading_append (plain : startsPlain chars = true) (back : String) :
    isHeading (String.ofList chars ++ back) = false := by
  refine List.any_eq_false.2 fun start mem starts => ?_
  have opening : openingStart <+: start.toList := by
    revert mem
    simp only [openings, List.mem_cons, List.not_mem_nil, or_false]
    rintro (rfl | rfl) <;> decide
  have first := opening.trans (startsWith_iff.1 starts)
  have second : chars <+: (String.ofList chars ++ back).toList := by simp
  rw [startsPlain, Bool.and_eq_true, Bool.not_eq_true', Bool.not_eq_true', Bool.eq_false_iff,
    Bool.eq_false_iff, ne_eq, ne_eq, List.isPrefixOf_iff_prefix,
    List.isPrefixOf_iff_prefix] at plain
  rcases List.prefix_or_prefix_of_prefix first second with sub | sub
  · exact plain.1 sub
  · exact plain.2 sub

/-- A property is declared like a method up to the dollar sign. -/
theorem isHeading_property (rest : List Char) (back : String) :
    isHeading (String.ofList ([' ', ' ', ' ', ' ', 'p', 'r', 'o',
      't', 'e', 'c', 't', 'e', 'd', ' ', '$'] ++ rest) ++ back) = false := by
  simp [isHeading, openings, Text.startsWith, Chars.dropHead?]

/-- How a line begins is enough to see that it is inert. -/
def startsInert (chars : List Char) : Bool := startsPlain chars && startsSilent chars

theorem isInert_append (inert : startsInert chars = true) (back : String) :
    IsInert (String.ofList chars ++ back) where
  silent := isSilent_append (Bool.and_eq_true_iff.1 inert).2 back
  plain := isHeading_append (Bool.and_eq_true_iff.1 inert).1 back

theorem isInert_ofList (inert : startsInert chars = true) : IsInert (String.ofList chars) := by
  have whole := isInert_append inert ""
  rwa [String.append_empty] at whole

theorem isInert_empty : IsInert "" where
  silent := isSilent_empty
  plain := by decide

/-- None of the lines calls a method of its class. -/
def AreSilent (lines : List String) : Prop := ∀ line ∈ lines, IsSilent line

@[simp]
theorem areSilent_nil : AreSilent [] := by simp [AreSilent]

@[simp]
theorem areSilent_cons : AreSilent (line :: lines) ↔ IsSilent line ∧ AreSilent lines := by
  simp [AreSilent]

@[simp]
theorem areSilent_append : AreSilent (lines ++ more) ↔ AreSilent lines ∧ AreSilent more := by
  simp [AreSilent, or_imp, forall_and]

@[simp]
theorem areSilent_flatMap {α : Type} {list : List α} {f : α → List String} :
    AreSilent (list.flatMap f) ↔ ∀ a ∈ list, AreSilent (f a) := by
  simp only [AreSilent, List.mem_flatMap]
  exact ⟨fun h a mem line isLine => h line ⟨a, mem, isLine⟩, fun h line ⟨a, mem, isLine⟩ =>
    h a mem line isLine⟩

/-- None of the lines opens a method or calls one. -/
def AreInert (lines : List String) : Prop := ∀ line ∈ lines, IsInert line

@[simp]
theorem areInert_nil : AreInert [] := by simp [AreInert]

@[simp]
theorem areInert_cons : AreInert (line :: lines) ↔ IsInert line ∧ AreInert lines := by
  simp [AreInert]

@[simp]
theorem areInert_append : AreInert (lines ++ more) ↔ AreInert lines ∧ AreInert more := by
  simp [AreInert, or_imp, forall_and]

@[simp]
theorem areInert_map {α : Type} {list : List α} {f : α → String} :
    AreInert (list.map f) ↔ ∀ a ∈ list, IsInert (f a) := by
  simp [AreInert]

theorem areInert_gap : AreInert [""] := by simp [isInert_empty]

/-- The brace that ends a class. -/
theorem areInert_end : AreInert ["\x7d"] := by
  simp only [areInert_cons, areInert_nil, and_true]
  exact isInert_ofList rfl

theorem areInert_remark (text : String) : AreInert (remark text) := by
  simp only [remark, areInert_cons, areInert_nil, and_true]
  exact ⟨isInert_ofList rfl, isInert_append rfl _, isInert_ofList rfl⟩

/-! ## What lines tell -/

/-- The lines open these methods, in this order, and call no others than those listed. -/
structure Tells (lines names calls : List String) : Prop where
  writes : Writes lines names
  calls : ∀ line ∈ lines, ∀ name, Calls line name → name ∈ calls

theorem Writes.declares (h : Writes lines names) (mem : name ∈ names) : Declares lines name := by
  obtain ⟨line, isLine, opens⟩ := exists_of_forall₂ h mem
  exact ⟨line, (List.mem_filter.1 isLine).1, opens⟩

/-- Where everything that is called is also opened, no call leads astray. -/
theorem Tells.declares (h : Tells lines names calls) (closed : calls ⊆ names) :
    ∀ line ∈ lines, ∀ name, Calls line name → Declares lines name := by
  intro line mem name isCall
  exact h.writes.declares (closed (h.calls line mem name isCall))

theorem Tells.mono (h : Tells lines names calls) (sub : calls ⊆ others) :
    Tells lines names others where
  writes := h.writes
  calls line mem name isCall := sub (h.calls line mem name isCall)

theorem Tells.of_eq (h : Tells lines names calls) (same : names = others) :
    Tells lines others calls := same ▸ h

theorem Tells.append (h : Tells lines names calls) (h' : Tells more others others') :
    Tells (lines ++ more) (names ++ others) (calls ++ others') where
  writes := by
    rw [Writes, List.filter_append]
    exact List.rel_append h.writes h'.writes
  calls line mem name isCall := by
    rcases List.mem_append.1 mem with mem | mem
    · exact List.mem_append_left _ (h.calls line mem name isCall)
    · exact List.mem_append_right _ (h'.calls line mem name isCall)

theorem AreInert.tellsNothing (h : AreInert lines) : Tells lines [] [] where
  writes := by
    have empty : lines.filter isHeading = [] := by
      refine List.filter_eq_nil_iff.2 fun line mem => ?_
      simp [(h line mem).plain]
    rw [Writes, empty]
    exact .nil
  calls line mem name isCall := absurd isCall (h line mem).silent.not_calls

theorem tells_gap : Tells [""] [] [] := areInert_gap.tellsNothing

/-- Inert lines before and after do not count. -/
theorem Tells.between (h : Tells lines names calls) (before : AreInert more)
    (after : AreInert others) : Tells (more ++ lines ++ others) names calls := by
  have whole := (before.tellsNothing.append h).append after.tellsNothing
  rwa [List.nil_append, List.append_nil, List.nil_append, List.append_nil] at whole

theorem Tells.flatMap {α : Type} {list : List α} {f g k : α → List String}
    (each : ∀ a ∈ list, Tells (f a) (g a) (k a)) :
    Tells (list.flatMap f) (list.flatMap g) (list.flatMap k) := by
  induction list with
  | nil => exact areInert_nil.tellsNothing
  | cons a rest ih =>
    simp only [List.flatMap_cons]
    exact (each a (List.mem_cons_self ..)).append
      (ih fun b mem => each b (List.mem_cons_of_mem _ mem))

/-- What is called behind an arrow has the name that stands there. -/
theorem Calls.name_eq {called : String} (h : Calls line called) (front rest : String)
    (whole : line.toList = (front ++ "->" ++ name ++ "(" ++ rest).toList) : called = name := by
  have parts : line.toList = front.toList ++ '-' :: '>' :: (name.toList ++ '(' :: rest.toList) := by
    simp [whole]
  exact String.toList_inj.1 (h.hasCall.eq_of_arrow parts).1

/-- The same where nothing is called. -/
theorem Tells.flatMap_nil {α : Type} {list : List α} {f g : α → List String}
    (each : ∀ a ∈ list, Tells (f a) (g a) []) : Tells (list.flatMap f) (list.flatMap g) [] := by
  have absent : list.flatMap (fun _ => ([] : List String)) = [] := by simp
  exact absent ▸ Tells.flatMap each

/-- A line that opens no method, and calls none but the one behind its arrow. -/
theorem tells_call (front rest : String) (plain : isHeading line = false)
    (whole : line.toList = (front ++ "->" ++ name ++ "(" ++ rest).toList) :
    Tells [line] [] [name] where
  writes := by
    rw [Writes, List.filter_cons_of_neg (by simp [plain])]
    exact .nil
  calls other mem called isCall := by
    obtain rfl := List.mem_singleton.1 mem
    exact List.mem_singleton.2 (isCall.name_eq front rest whole)

/-- Lines of a body open no method, since they are indented further. -/
theorem tells_indent
    (each : ∀ line ∈ lines, ∀ width name, Calls (Text.repeated ' ' width ++ line) name →
      name ∈ calls) : Tells (Php.indent 2 lines) [] calls where
  writes := by
    have plain : (Php.indent 2 lines).filter isHeading = [] := by
      refine List.filter_eq_nil_iff.2 fun line mem => ?_
      obtain ⟨inner, -, rfl⟩ := List.mem_map.1 mem
      split
      · simp [isInert_empty.plain]
      · have deep : isHeading (String.ofList (List.replicate 8 ' ') ++ inner) = false :=
          isHeading_append (by decide) inner
        rw [Bool.not_eq_true]
        exact deep
    rw [Writes, plain]
    exact .nil
  calls line mem name isCall := by
    obtain ⟨inner, isMember, rfl⟩ := List.mem_map.1 mem
    split at isCall
    · exact absurd isCall isInert_empty.silent.not_calls
    · exact each inner isMember _ name isCall

/-- A method between its braces. -/
theorem tells_method (opens : Opens ("    " ++ heading) name) (silent : IsSilent heading)
    (inside : Tells body [] calls) : Tells (method heading body) [name] calls := by
  have first : Tells ["    " ++ heading] [name] [] := by
    refine ⟨?_, fun line mem called isCall => ?_⟩
    · rw [Writes, List.filter_cons_of_pos opens.isHeading]
      exact .cons opens .nil
    · obtain rfl := List.mem_singleton.1 mem
      exact absurd isCall (silent 4 called)
  have brace : AreInert ["    \x7b"] := by
    simp only [areInert_cons, areInert_nil, and_true]
    exact isInert_ofList rfl
  have closing : AreInert ["    \x7d"] := by
    simp only [areInert_cons, areInert_nil, and_true]
    exact isInert_ofList rfl
  have whole := first.append (inside.between brace closing)
  exact whole

/-- Nothing but empty lines at the end is left out. -/
theorem exists_trailing (lines : List String) :
    ∃ count, lines = withoutTrailingBlanks lines ++ List.replicate count "" := by
  have empty : ∀ line ∈ (lines.reverse.takeWhile (·.isEmpty)).reverse, line = "" := by
    intro line mem
    have isEmpty :=
      List.all_eq_true.1 (List.all_takeWhile (p := (·.isEmpty)) (l := lines.reverse)) line
    exact String.isEmpty_iff.1 (isEmpty (List.mem_reverse.1 mem))
  refine ⟨(lines.reverse.takeWhile (·.isEmpty)).reverse.length, ?_⟩
  rw [← List.eq_replicate_of_mem empty, withoutTrailingBlanks, ← List.reverse_append,
    List.takeWhile_append_dropWhile, List.reverse_reverse]

theorem tells_withoutTrailingBlanks (h : Tells lines names calls) :
    Tells (withoutTrailingBlanks lines) names calls := by
  obtain ⟨count, whole⟩ := exists_trailing lines
  have absent : (List.replicate count "").filter isHeading = [] := by simp [isInert_empty.plain]
  refine ⟨?_, fun line mem name isCall => h.calls line ?_ name isCall⟩
  · have writes := h.writes
    rw [whole, Writes, List.filter_append, absent, List.append_nil] at writes
    exact writes
  · rw [whole]
    exact List.mem_append_left _ mem

end Scaffold.Render
