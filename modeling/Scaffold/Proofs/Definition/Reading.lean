import Mathlib.Data.List.DropRight
import Scaffold.Definition.Field
import Scaffold.Definition.Relation
import Scaffold.Proofs.Outcomes
import Scaffold.Proofs.Text.Numerals
import Scaffold.Proofs.Text.Pieces
import Scaffold.Proofs.Text.Trimming

/-!
# Reading definitions that were written

A field or a relation that was read from a definition can be written as one, and that definition is
read as the same field or relation: `Definition.parse_definition_of_parse`. What can be read is told
by `Field.IsDefinable` and `Relation.IsDefinable`, without the reader: names and values have no
white space at their ends, no separators in them, and are not empty.
-/

namespace Scaffold
set_option autoImplicit false

/-- A value in a definition: it is not empty, has no white space at its ends, and none of the
separators in it. -/
structure Definition.IsValue (separators : List Char) (text : String) : Prop where
  filled : text ≠ ""
  trimmed : Text.IsTrimmed text
  clear : ∀ c ∈ separators, c ∉ text.toList

open Definition (IsValue)

theorem Definition.IsValue.fewer {separators fewer : List Char} {text : String}
    (h : IsValue separators text) (within : fewer ⊆ separators) : IsValue fewer text :=
  ⟨h.filled, h.trimmed, fun c mem => h.clear c (within mem)⟩

/-- Two values with a separator between them. -/
theorem Definition.IsValue.append {separators : List Char} {front back : String}
    (first : IsValue separators front) (last : IsValue separators back) {bar : String}
    (apart : ∀ c ∈ separators, c ∉ bar.toList) :
    IsValue separators (front ++ bar ++ back) where
  filled none := by
    have chars := congrArg String.toList none
    simp only [String.toList_append, String.toList_empty, List.append_eq_nil_iff] at chars
    exact first.filled (String.toList_eq_nil_iff.1 chars.1.1)
  trimmed := first.trimmed.append first.filled last.trimmed last.filled bar
  clear c mem := by
    simp only [String.toList_append, List.mem_append, not_or]
    exact ⟨⟨first.clear c mem, apart c mem⟩, last.clear c mem⟩

/-- Values, joined, are a value. -/
theorem Definition.isValue_join {separators : List Char} {bar : String}
    (apart : ∀ c ∈ separators, c ∉ bar.toList) {values : List String} (filled : values ≠ [])
    (all : ∀ value ∈ values, IsValue separators value) :
    IsValue separators (Text.join bar values) := by
  induction values with
  | nil => exact absurd rfl filled
  | cons first rest ih =>
    obtain ⟨isFirst, others⟩ := List.forall_mem_cons.1 all
    cases rest with
    | nil => simpa [Text.join] using isFirst
    | cons second rest =>
      have joined : Text.join bar (first :: second :: rest) = first ++ bar ++ Text.join bar
          (second :: rest) := by
        simp [Text.join, String.intercalate_cons_of_ne_nil]
      rw [joined]
      exact isFirst.append (ih (List.cons_ne_nil second rest) others) apart

/-- The pieces of a text that are not empty without the white space around them are values. -/
theorem Definition.isValue_of_mem_split {sep other : Char} {text piece : String}
    (clear : other ∉ text.toList) (mem : piece ∈ (Text.split sep text).map Text.strip)
    (filled : piece ≠ "") : IsValue [other, sep] piece := by
  obtain ⟨raw, isPiece, rfl⟩ := List.mem_map.1 mem
  refine ⟨filled, Text.isTrimmed_strip raw, ?_⟩
  simp only [List.forall_mem_cons, List.not_mem_nil, false_implies, implies_true, and_true]
  exact ⟨fun here => clear (Text.mem_of_mem_split isPiece (Text.mem_of_mem_strip here)),
    fun here => Text.not_mem_of_mem_split isPiece (Text.mem_of_mem_strip here)⟩

/-- Values, joined with one of the separators between them, are read back one by one. -/
theorem Definition.map_strip_split_join {sep : Char} {bar : String} (single : bar.toList = [sep])
    {values : List String} (filled : values ≠ [])
    (all : ∀ value ∈ values, Text.IsTrimmed value ∧ sep ∉ value.toList) :
    (Text.split sep (Text.join bar values)).map Text.strip = values := by
  rw [Text.split_joined single filled fun value mem => (all value mem).2]
  exact (List.map_congr_left fun value mem => (all value mem).1.strip_eq).trans (List.map_id values)

namespace Field

/-- The parameters with which a field of a type can be read. -/
def Suits (typeName : String) (params : Option TypeParams) : Prop :=
  match FieldType.ofName? typeName with
  | some .foreign => ∃ table, params = some (.foreign table) ∧ IsValue ['|'] table
  | some .enumeration =>
    ∃ values, params = some (.enumeration values) ∧ values ≠ [] ∧ ∀ value ∈ values,
      IsValue ['|', ','] value
  | some .decimal => ∃ precision scale, params = some (.decimal precision scale) ∧ 1 ≤ precision ∧
      (toString precision).length ≤ Text.maxDigits ∧ (toString scale).length ≤ Text.maxDigits
  | some .file | some .files =>
    params = some (.file none) ∨ ∃ disk, params = some (.file (some disk)) ∧ IsValue ['|'] disk
  | _ => params = none

/-- A field that some definition describes. -/
structure IsDefinable (field : Field) : Prop where
  typed : IsValue ['|', ':'] field.typeName
  suits : Suits field.typeName field.params
  tokens : ∀ token ∈ field.validations, token ≠ "" ∧ '|' ∉ token.toList

/-- The name with which the segment of a type opens, and what stands after the colon. -/
def opened (segment : String) : String × Option String :=
  match Text.cut? ':' segment with
  | some (name, params) => (Text.strip name, some params)
  | none => (segment, none)

variable {definition segment typeName : String} {field : Field} {given : Option String}
  {params : Option TypeParams}

/-- When parameters that were read make a field. -/
theorem named_eq_ok {e : ParseError} {outcome : Except ParseError (Option TypeParams)}
    {tokens : List String} :
    (if typeName.isEmpty then .error e else outcome.map fun params =>
      ⟨typeName, params, tokens⟩) = .ok field ↔
      typeName ≠ "" ∧ outcome = .ok field.params ∧ field.typeName = typeName ∧
      field.validations = tokens := by
  by_cases absent : typeName = ""
  · simp [absent]
  · rw [if_neg (by simpa using absent), map_eq_ok, and_iff_right absent]
    constructor
    · rintro ⟨params, read, rfl⟩
      exact ⟨read, rfl, rfl⟩
    · rintro ⟨read, rfl, rfl⟩
      exact ⟨field.params, read, rfl⟩

/-- When a definition is read as a field. -/
theorem parse_eq_ok : parse definition = .ok field ↔ Text.isBlankText definition = false ∧
    ∃ first tokens given, Text.split '|' definition = first :: tokens ∧ Text.strip first ≠ "" ∧
    opened (Text.strip first) = (field.typeName, given) ∧
      field.typeName ≠ "" ∧ parseParams definition (Text.strip first) field.typeName given =
        .ok field.params ∧
      field.validations = tokens.filter (!·.isEmpty) := by
  unfold parse
  cases blank : Text.isBlankText definition with
  | true => simp
  | false =>
    cases pieces : Text.split '|' definition with
    | nil => simp
    | cons first tokens =>
      have read (name : String) (given : Option String)
          (opens : opened (Text.strip first) = (name, given)) :
          (Text.strip first ≠ "" ∧ name ≠ "" ∧
            parseParams definition (Text.strip first) name given = .ok field.params ∧
            field.typeName = name ∧ field.validations = tokens.filter (!·.isEmpty)) ↔
          ∃ first' tokens' given', first :: tokens = first' :: tokens' ∧ Text.strip first' ≠ "" ∧
            opened (Text.strip first') = (field.typeName, given') ∧ field.typeName ≠ "" ∧
            parseParams definition (Text.strip first') field.typeName given' = .ok field.params ∧
            field.validations = tokens'.filter (!·.isEmpty) := by
        constructor
        · rintro ⟨filled, named, read, rfl, kept⟩
          exact ⟨first, tokens, given, rfl, filled, opens, named, read, kept⟩
        · rintro ⟨first', tokens', given', same, filled, opens', named, read, kept⟩
          obtain ⟨rfl, rfl⟩ := List.cons.inj same
          obtain ⟨rfl, rfl⟩ := Prod.mk.inj (opens.symm.trans opens')
          exact ⟨filled, named, read, rfl, kept⟩
      dsimp only
      rw [if_neg Bool.false_ne_true, and_iff_right rfl]
      by_cases absent : Text.strip first = ""
      · have empty : (Text.strip first).isEmpty = true := by simp [absent]
        rw [if_pos empty]
        refine iff_of_false (by simp) ?_
        rintro ⟨first', _, _, same, filled, -⟩
        obtain ⟨rfl, -⟩ := List.cons.inj same
        exact filled absent
      · rw [if_neg (by simpa using absent)]
        cases cut : Text.cut? ':' (Text.strip first) with
        | none =>
          rw [← read (Text.strip first) .none (by simp [opened, cut]), and_iff_right absent]
          exact named_eq_ok
        | some parts =>
          rw [← read (Text.strip parts.1) (some parts.2) (by simp [opened, cut]),
            and_iff_right absent]
          exact named_eq_ok

/-- A name that is opened has no white space at its ends. -/
theorem isValue_of_opened {first : String} (opens : opened (Text.strip first) = (typeName, given))
    (named : typeName ≠ "") (clear : '|' ∉ first.toList) : IsValue ['|', ':'] typeName := by
  have bar : '|' ∉ (Text.strip first).toList := fun mem => clear (Text.mem_of_mem_strip mem)
  unfold opened at opens
  split at opens
  · rename_i name params cut
    obtain ⟨rfl, -⟩ := Prod.mk.inj opens
    obtain ⟨whole, colon⟩ := Text.eq_of_cut? cut
    refine ⟨named, Text.isTrimmed_strip name, ?_⟩
    rw [whole, List.mem_append, not_or] at bar
    simpa using ⟨fun mem => bar.1 (Text.mem_of_mem_strip mem), fun mem =>
      colon (Text.mem_of_mem_strip mem)⟩
  · rename_i bare
    obtain ⟨rfl, -⟩ := Prod.mk.inj opens
    exact ⟨named, Text.isTrimmed_strip first, by simpa using ⟨bar, Text.cut?_eq_none.1 bare⟩⟩

/-- What stands after the colon is part of the segment. -/
theorem mem_of_opened {params : String} (opens : opened segment = (typeName, some params))
    {c : Char} (mem : c ∈ params.toList) : c ∈ segment.toList := by
  unfold opened at opens
  split at opens
  · rename_i name rest cut
    obtain rfl := Option.some.inj (Prod.mk.inj opens).2
    rw [(Text.eq_of_cut? cut).1]
    exact List.mem_append_right _ (List.mem_cons_of_mem _ mem)
  · cases opens

/-- A number that was read from digits is written in no more of them. -/
theorem length_of_readDigits {digits : String} {value : Nat}
    (isDigits : Text.isDigits digits = true) (h : readDigits digits = .ok value) :
    (toString value).length ≤ Text.maxDigits := by
  obtain ⟨whole, read, rfl⟩ := map_eq_ok.1 h
  obtain ⟨decimal, short⟩ := (Text.readInteger_of_isDigits isDigits).1 ⟨whole, read⟩
  rw [Text.eq_numberOf_of_readInteger isDigits read]
  rw [Text.isDigits, Bool.and_eq_true] at isDigits
  have filled : digits.toList ≠ [] := by
    intro absent
    simp [String.toList_eq_nil_iff.1 absent] at isDigits
  exact Nat.le_trans (Text.length_toString_numberOf filled decimal) short

theorem readDigits_toString {value : Nat} (short : (toString value).length ≤ Text.maxDigits) :
    readDigits (toString value) = .ok value := by
  rw [readDigits, Text.readInteger_toString short]
  rfl

/-- What is read after `decimal:`. -/
theorem parseDecimal_eq_ok {text : String} {read : TypeParams} :
    parseDecimal definition text = .ok read ↔ ∃ precision scale,
    (Text.split ',' text).map Text.strip = [precision, scale] ∧
      (Text.isDigits precision = true ∧ Text.isDigits scale = true) ∧
      ∃ p s, readDigits precision = .ok p ∧
        readDigits scale = .ok s ∧ 1 ≤ p ∧ read = .decimal p s := by
  unfold parseDecimal
  dsimp only
  split
  · rename_i precision scale parts
    rw [parts]
    by_cases digits : Text.isDigits precision = true ∧ Text.isDigits scale = true
    · rw [if_neg (by simp [digits])]
      cases first : readDigits precision with
      | error e => simp [first]
      | ok p =>
        cases second : readDigits scale with
        | error e => simp [second]
        | ok s =>
          dsimp only
          by_cases small : p < 1
          · rw [if_pos small]
            refine iff_of_false (by simp) ?_
            rintro ⟨precision', scale', same, -, p', s', read, -, least, -⟩
            obtain ⟨rfl, -⟩ := List.cons.inj same
            rw [first] at read
            exact Nat.not_le.2 small (Except.ok.inj read ▸ least)
          · rw [if_neg small]
            constructor
            · intro same
              exact ⟨precision, scale, rfl, digits, p, s, first, second, Nat.not_lt.1 small,
                (Except.ok.inj same).symm⟩
            · rintro ⟨precision', scale', same, -, p', s', read, read', -, rfl⟩
              obtain ⟨rfl, others⟩ := List.cons.inj same
              obtain ⟨rfl, -⟩ := List.cons.inj others
              rw [first] at read
              rw [second] at read'
              rw [Except.ok.inj read, Except.ok.inj read']
    · have wrong : (!(Text.isDigits precision && Text.isDigits scale)) = true := by
        rw [Bool.not_eq_true', Bool.eq_false_iff, ne_eq, Bool.and_eq_true]
        exact digits
      rw [if_pos wrong]
      simp only [reduceCtorEq, List.cons.injEq, and_true, false_iff]
      rintro ⟨precision', scale', ⟨rfl, rfl⟩, digits', -⟩
      exact digits digits'
  · rename_i parts apart
    refine iff_of_false (by simp) ?_
    rintro ⟨precision, scale, eq, -⟩
    exact apart _ _ eq

/-- The parameters that are read suit the type. -/
theorem suits_of_parseParams (clear : ∀ text ∈ given, '|' ∉ text.toList)
    (h : parseParams definition segment typeName given = .ok params) : Suits typeName params := by
  have value (filled : Text.strip (given.getD "") ≠ "") :
      IsValue ['|'] (Text.strip (given.getD "")) := by
    refine ⟨filled, Text.isTrimmed_strip _, ?_⟩
    simp only [List.forall_mem_cons, List.not_mem_nil, false_implies, implies_true, and_true]
    intro mem
    cases given with
    | none => exact absurd (Text.mem_of_mem_strip mem) (by simp)
    | some text => exact clear text rfl (Text.mem_of_mem_strip mem)
  have file (h : Except.ok (ε := ParseError)
    (some (TypeParams.file (if (Text.strip (given.getD "")).isEmpty then none
      else some (Text.strip (given.getD ""))))) = .ok params) :
      params = some (.file none) ∨ ∃ disk, params = some (.file (some disk)) ∧
      IsValue ['|'] disk := by
    obtain rfl := Except.ok.inj h
    by_cases absent : Text.strip (given.getD "") = ""
    · exact .inl (by simp [absent])
    · exact .inr ⟨_, by rw [if_neg (by simpa using absent)], value absent⟩
  unfold parseParams at h
  unfold Suits
  cases known : FieldType.ofName? typeName with
  | none => simpa [known, eq_comm] using h
  | some type =>
    simp only [known] at h
    cases type with
    | foreign =>
      dsimp only at h ⊢
      split at h
      · cases h
      · rename_i filled
        obtain rfl := Except.ok.inj h
        exact ⟨_, rfl, value (by simpa using filled)⟩
    | enumeration =>
      dsimp only at h ⊢
      cases given with
      | none => cases h
      | some text =>
        obtain ⟨values, read, rfl⟩ := map_eq_ok.1 h
        unfold parseValues at read
        dsimp only at read
        split at read
        · cases read
        · rename_i filled
          rw [Bool.not_eq_true, List.any_eq_false] at filled
          obtain rfl := Except.ok.inj read
          refine ⟨_, rfl, by
            simpa [Text.split] using Chars.split_ne_nil ',' text.toList, fun value mem => ?_⟩
          exact Definition.isValue_of_mem_split (clear text rfl) mem
            (by simpa using filled value mem)
    | decimal =>
      dsimp only at h ⊢
      cases given with
      | none =>
        obtain rfl := Except.ok.inj h
        exact ⟨8, 2, rfl, by decide, by decide +kernel, by decide +kernel⟩
      | some text =>
        obtain ⟨read, isRead, rfl⟩ := map_eq_ok.1 h
        obtain ⟨precision, scale, -, ⟨digits, digits'⟩, p, s, first, second, least, rfl⟩ :=
          parseDecimal_eq_ok.1 isRead
        exact ⟨p, s, rfl, least, length_of_readDigits digits first,
          length_of_readDigits digits' second⟩
    | file => exact file h
    | files => exact file h
    | _ => exact (Except.ok.inj h).symm

/-- What was read from a definition can be read from one. -/
theorem isDefinable_of_parse (h : parse definition = .ok field) : field.IsDefinable := by
  obtain ⟨-, first, tokens, given, pieces, -, opens, named, read, kept⟩ := parse_eq_ok.1 h
  have isPiece : ∀ piece ∈ first :: tokens, '|' ∉ piece.toList :=
    fun piece mem => Text.not_mem_of_mem_split (pieces ▸ mem)
  have clear := isPiece first (List.mem_cons_self ..)
  refine ⟨isValue_of_opened opens named clear, suits_of_parseParams (fun text mem bar => ?_) read,
    fun token mem => ?_⟩
  · obtain rfl := Option.mem_def.1 mem
    exact clear (Text.mem_of_mem_strip (mem_of_opened opens bar))
  · rw [kept, List.mem_filter] at mem
    exact ⟨by simpa using mem.2, isPiece token (List.mem_cons_of_mem _ mem.1)⟩

theorem isValue_toString (n : Nat) : IsValue ['|', ','] (toString n) := by
  have digit : ∀ c ∈ (toString n).toList, Text.isDigit c = true :=
    fun c mem => Text.isDigit_of_isDecimalDigit (Text.isDecimalDigit_of_mem_toString mem)
  have stays : ∀ c ∈ (toString n).toList, Text.isBlank c = false :=
    fun c mem => Text.not_isBlank_of_isDigit (digit c mem)
  have apart : ∀ c ∈ ['|', ','], Text.isDigit c = false := by decide
  refine ⟨fun absent => Text.toList_toString_ne_nil n (by rw [absent]; rfl), ⟨?_, ?_⟩,
    fun c isSep mem => ?_⟩
  · exact fun c mem => stays c (List.mem_of_mem_head? mem)
  · exact fun c mem => stays c (List.mem_of_mem_getLast? mem)
  · exact Bool.false_ne_true ((apart c isSep).symm.trans (digit c mem))

variable {text : String}

theorem opened_self (clear : ':' ∉ typeName.toList) : opened typeName = (typeName, none) := by
  rw [opened, Text.cut?_eq_none.2 clear]

theorem opened_append (trimmed : Text.IsTrimmed typeName) (clear : ':' ∉ typeName.toList)
    (text : String) : opened (typeName ++ ":" ++ text) = (typeName, some text) := by
  rw [opened, Text.cut?_append rfl clear]
  simp only [trimmed.strip_eq]

theorem parseValues_join {values : List String} (nonempty : values ≠ [])
    (all : ∀ value ∈ values, IsValue ['|', ','] value) :
    parseValues definition (Text.join "," values) = .ok (.enumeration values) := by
  have back : (Text.split ',' (Text.join "," values)).map Text.strip = values :=
    Definition.map_strip_split_join rfl nonempty fun value mem =>
      ⟨(all value mem).trimmed, (all value mem).clear ',' (by simp)⟩
  have filled : ¬ values.any (·.isEmpty) = true := by
    rw [List.any_eq_true]
    rintro ⟨value, mem, empty⟩
    exact (all value mem).filled (by simpa using empty)
  rw [parseValues, back]
  exact if_neg filled

theorem parseDecimal_toString {precision scale : Nat} (least : 1 ≤ precision)
    (short : (toString precision).length ≤ Text.maxDigits)
    (short' : (toString scale).length ≤ Text.maxDigits) :
    parseDecimal definition (Text.join "," [toString precision, toString scale]) =
      .ok (.decimal precision scale) := by
  have back : (Text.split ',' (Text.join "," [toString precision, toString scale])).map Text.strip =
      [toString precision, toString scale] := by
    refine Definition.map_strip_split_join rfl (List.cons_ne_nil _ _) ?_
    simp only [List.forall_mem_cons, List.not_mem_nil, false_implies, implies_true, and_true]
    exact ⟨⟨(isValue_toString precision).trimmed, (isValue_toString precision).clear ',' (by simp)⟩,
      ⟨(isValue_toString scale).trimmed, (isValue_toString scale).clear ',' (by simp)⟩⟩
  exact parseDecimal_eq_ok.2 ⟨_, _, back,
    ⟨Text.isDigits_toString precision, Text.isDigits_toString scale⟩, precision, scale,
    readDigits_toString short, readDigits_toString short', least, rfl⟩

/-- A segment is read as a type with its parameters. -/
structure Spells (segment typeName : String) (params : Option TypeParams) : Prop where
  value : IsValue ['|'] segment
  read : ∃ given, opened segment = (typeName, given) ∧
    ∀ definition segment, parseParams definition segment typeName given = .ok params

theorem spells_alone (typed : IsValue ['|', ':'] typeName)
    (read : ∀ definition segment, parseParams definition segment typeName none = .ok params) :
    Spells typeName typeName params :=
  ⟨typed.fewer (by simp), none, opened_self (typed.clear ':' (by simp)), read⟩

theorem spells_followed (typed : IsValue ['|', ':'] typeName) (value : IsValue ['|'] text)
    (read : ∀ definition segment,
      parseParams definition segment typeName (some text) = .ok params) :
    Spells (typeName ++ ":" ++ text) typeName params :=
  ⟨(typed.fewer (by simp)).append value (by decide), some text,
    opened_append typed.trimmed (typed.clear ':' (by simp)) text, read⟩

theorem spells_values {values : List String} (typed : IsValue ['|', ':'] typeName)
    (known : FieldType.ofName? typeName = some .enumeration) (filled : values ≠ [])
    (all : ∀ value ∈ values, IsValue ['|', ','] value) :
    Spells (typeName ++ ":" ++ Text.join "," values) typeName (.some (.enumeration values)) := by
  have value : IsValue ['|'] (Text.join "," values) :=
    Definition.isValue_join (by decide) filled fun value mem => (all value mem).fewer (by simp)
  refine spells_followed typed value fun definition segment => ?_
  simp only [parseParams, known, parseValues_join filled all, Except.map]

theorem spells_decimal {precision scale : Nat} (typed : IsValue ['|', ':'] typeName)
    (known : FieldType.ofName? typeName = some .decimal) (least : 1 ≤ precision)
    (short : (toString precision).length ≤ Text.maxDigits)
    (short' : (toString scale).length ≤ Text.maxDigits) :
    Spells (typeName ++ ":" ++ toString precision ++ "," ++ toString scale) typeName
      (some (.decimal precision scale)) := by
  have joined : typeName ++ ":" ++ toString precision ++ "," ++ toString scale =
      typeName ++ ":" ++ Text.join "," [toString precision, toString scale] := by
    simp [Text.join, String.intercalate_cons_of_ne_nil, String.append_assoc]
  have value : IsValue ['|'] (Text.join "," [toString precision, toString scale]) := by
    refine Definition.isValue_join (by decide) (List.cons_ne_nil _ _) ?_
    simp only [List.forall_mem_cons, List.not_mem_nil, false_implies, implies_true, and_true]
    exact ⟨(isValue_toString precision).fewer (by simp), (isValue_toString scale).fewer (by simp)⟩
  rw [joined]
  refine spells_followed typed value fun definition segment => ?_
  simp only [parseParams, known, parseDecimal_toString least short short', Except.map]

theorem spells_disk {type : FieldType} {disk : String} (typed : IsValue ['|', ':'] typeName)
    (known : FieldType.ofName? typeName = some type) (isFile : type = .file ∨ type = .files)
    (value : IsValue ['|'] disk) :
    Spells (typeName ++ ":" ++ disk) typeName (some (.file (some disk))) := by
  refine spells_followed typed value fun definition segment => ?_
  rcases isFile with rfl | rfl <;> simp [parseParams, known, value.trimmed.strip_eq, value.filled]

/-- The type of a field that can be read is read from its segment, with its parameters. -/
theorem spells_typeSegment (h : field.IsDefinable) :
    Spells field.typeSegment field.typeName field.params := by
  obtain ⟨typed, suits, -⟩ := h
  obtain ⟨typeName, params, tokens⟩ := field
  dsimp only at typed suits ⊢
  have file {type : FieldType} (known : FieldType.ofName? typeName = some type)
      (isFile : type = .file ∨ type = .files)
      (suits : params = some (.file none) ∨ ∃ disk, params = some (.file (some disk)) ∧
        IsValue ['|'] disk) :
      Spells (typeSegment ⟨typeName, params, tokens⟩) typeName params := by
    rcases suits with rfl | ⟨disk, rfl, value⟩
    · have alone : Spells typeName typeName (some (.file none)) := by
        refine spells_alone typed fun definition segment => ?_
        rcases isFile with rfl | rfl <;> simp [parseParams, known]
      exact alone
    · have written :
        typeSegment ⟨typeName, some (.file (some disk)), tokens⟩ = typeName ++ ":" ++ disk :=
        if_neg (by simpa using value.filled)
      rw [written]
      exact spells_disk typed known isFile value
  unfold Suits at suits
  cases known : FieldType.ofName? typeName with
  | none =>
    rw [known] at suits
    subst suits
    have alone : Spells typeName typeName none := spells_alone typed fun definition segment => by
      simp [parseParams, known]
    exact alone
  | some type =>
    rw [known] at suits
    cases type with
    | foreign =>
      obtain ⟨table, rfl, value⟩ := suits
      refine spells_followed typed value fun definition segment => ?_
      simp [parseParams, known, value.trimmed.strip_eq, value.filled]
    | enumeration =>
      obtain ⟨values, rfl, nonempty, all⟩ := suits
      exact spells_values typed known nonempty all
    | decimal =>
      obtain ⟨precision, scale, rfl, least, short, short'⟩ := suits
      exact spells_decimal typed known least short short'
    | file => exact file known (.inl rfl) suits
    | files => exact file known (.inr rfl) suits
    | _ =>
      subst suits
      have alone : Spells typeName typeName none := spells_alone typed fun definition segment => by
        simp [parseParams, known]
      exact alone

/-- A field that can be read is read from its definition. -/
theorem parse_definition (h : field.IsDefinable) : parse field.definition = .ok field := by
  obtain ⟨value, given, opens, read⟩ := spells_typeSegment h
  have pieces : Text.split '|' field.definition = field.typeSegment :: field.validations := by
    refine Text.split_joined rfl (List.cons_ne_nil _ _)
      (List.forall_mem_cons.2 ⟨value.clear '|' (by simp), ?_⟩)
    exact fun token mem => (h.tokens token mem).2
  have stripped := value.trimmed.strip_eq
  have filled : Text.isBlankText field.definition = false := by
    have nonempty := value.trimmed.isBlankText_eq value.filled
    rw [Text.isBlankText_eq_false] at nonempty ⊢
    obtain ⟨c, mem, stays⟩ := nonempty
    exact ⟨c, Text.mem_of_mem_split (pieces ▸ List.mem_cons_self ..) mem, stays⟩
  refine parse_eq_ok.2 ⟨filled, field.typeSegment, field.validations, given, pieces, ?_, ?_,
    h.typed.filled, ?_, ?_⟩
  · rw [stripped]
    exact value.filled
  · rw [stripped]
    exact opens
  · exact read _ _
  · refine (List.filter_eq_self.2 fun token mem => ?_).symm
    simpa using (h.tokens token mem).1

end Field

namespace RelationKind

theorem ofName?_name (kind : RelationKind) : ofName? kind.name = some kind := by
  cases kind <;> decide

theorem isValue_name (kind : RelationKind) : IsValue [':', ','] kind.name where
  filled := by cases kind <;> decide
  trimmed := by
    have stripped : Text.strip kind.name = kind.name := by cases kind <;> decide
    rw [← stripped]
    exact Text.isTrimmed_strip kind.name
  clear := by cases kind <;> decide

end RelationKind

namespace Relation

/-- A relation that some definition describes: its parameters can stand between commas. -/
def IsDefinable (relation : Relation) : Prop :=
  ∀ text, some text ∈ relation.params → IsValue [','] text

variable {definition : String} {relation : Relation}

/-- The parameter that is given at a place; an empty one is none. -/
def given (params : List String) (place : Nat) : Option String := params[place]?.filter (!·.isEmpty)

theorem given_eq_some {params : List String} {place : Nat} {text : String} :
    given params place = some text ↔ params[place]? = some text ∧ text ≠ "" := by
  rw [given, Option.filter_eq_some_iff]
  simp

/-- When a definition is read as a relation. -/
theorem parse_eq_ok : parse definition = .ok relation ↔ Text.isBlankText definition = false ∧
    ∃ kindText paramText kind, (Text.cut? ':' definition).getD (definition, "") =
      (kindText, paramText) ∧
      RelationKind.ofName? (Text.strip kindText) = some kind ∧
      relation = ofParams (given ((Text.split ',' paramText).map Text.strip)) kind := by
  unfold parse
  cases blank : Text.isBlankText definition with
  | true => simp
  | false =>
    obtain ⟨kindText, paramText⟩ := (Text.cut? ':' definition).getD (definition, "")
    cases known : RelationKind.ofName? (Text.strip kindText) with
    | none => simp [known]
    | some kind =>
      have same : ofParams (fun place => ((Text.split ',' paramText).map Text.strip)[place]?.filter
          (!·.isEmpty)) kind =
          ofParams (given ((Text.split ',' paramText).map Text.strip)) kind := rfl
      simp [-List.getElem?_map, known, same, eq_comm]

theorem mem_params_ofParams {param : Nat → Option String} {kind : RelationKind} {p : Option String}
    (mem : p ∈ (ofParams param kind).params) : ∃ place, p = param place := by
  cases kind <;> simp only [ofParams, params, List.mem_cons, List.not_mem_nil, or_false] at mem
  case belongsToMany => rcases mem with rfl | rfl | rfl | rfl <;> exact ⟨_, rfl⟩
  all_goals rcases mem with rfl | rfl <;> exact ⟨_, rfl⟩

theorem ofParams_params (relation : Relation) :
    ofParams (fun place => relation.params[place]?.join) relation.kind = relation := by
  cases relation <;> rfl

/-- What was read from a definition can be read from one. -/
theorem isDefinable_of_parse (h : parse definition = .ok relation) : relation.IsDefinable := by
  obtain ⟨-, kindText, paramText, kind, -, -, rfl⟩ := parse_eq_ok.1 h
  intro text mem
  obtain ⟨place, eq⟩ := mem_params_ofParams mem
  obtain ⟨isGiven, filled⟩ := given_eq_some.1 eq.symm
  obtain ⟨raw, isPiece, rfl⟩ := List.mem_map.1 (List.mem_of_getElem? isGiven)
  refine ⟨filled, Text.isTrimmed_strip raw, ?_⟩
  simp only [List.forall_mem_cons, List.not_mem_nil, false_implies, implies_true, and_true]
  exact fun comma => Text.not_mem_of_mem_split isPiece (Text.mem_of_mem_strip comma)

/-- Empty parameters at the end are as good as none. -/
theorem given_rdropWhile (params : List String) :
    given (params.rdropWhile (·.isEmpty)) = given params := by
  induction params using List.reverseRecOn with
  | nil => rfl
  | append_singleton init last ih =>
    by_cases empty : last.isEmpty = true
    · rw [List.rdropWhile_concat_pos _ _ _ empty, ih]
      refine funext fun place => Option.ext fun text => ?_
      rw [given_eq_some, given_eq_some]
      refine and_congr_left fun filled => ?_
      have other : last ≠ text := by
        rintro rfl
        exact filled (by simpa using empty)
      rcases Nat.lt_trichotomy place init.length with before | rfl | after
      · rw [List.getElem?_append_left before]
      · simp [other]
      · have gone : init[place]? = none := List.getElem?_eq_none (Nat.le_of_lt after)
        have gone' : (init ++ [last])[place]? = none :=
          List.getElem?_eq_none (by rw [List.length_append]; exact after)
        rw [gone, gone']
    · rw [List.rdropWhile_concat_neg _ _ _ empty]

/-- What is given where the parameters are written one by one. -/
theorem given_map_getD (h : relation.IsDefinable) :
    given (relation.params.map (·.getD "")) = fun place => relation.params[place]?.join := by
  refine funext fun place => Option.ext fun text => ?_
  rw [given_eq_some, List.getElem?_map]
  cases isAt : relation.params[place]? with
  | none => simp
  | some param =>
    cases param with
    | none => simp
    | some value =>
      have filled := (h value (List.mem_of_getElem? isAt)).filled
      simp only [Option.map_some, Option.getD_some, Option.some.injEq, Option.join_some]
      exact ⟨And.left, fun same => ⟨same, same ▸ filled⟩⟩

/-- A relation that can be read is read from its definition. -/
theorem parse_definition (h : relation.IsDefinable) : parse relation.definition = .ok relation := by
  have name := relation.kind.isValue_name
  have colon : ':' ∉ relation.kind.name.toList := name.clear ':' (by simp)
  have known : RelationKind.ofName? (Text.strip relation.kind.name) = some relation.kind := by
    rw [name.trimmed.strip_eq, RelationKind.ofName?_name]
  have filled (rest : String) : Text.isBlankText (relation.kind.name ++ rest) = false := by
    have nonempty := name.trimmed.isBlankText_eq name.filled
    rw [Text.isBlankText_eq_false] at nonempty ⊢
    obtain ⟨c, mem, stays⟩ := nonempty
    exact ⟨c, by simp [mem], stays⟩
  have back : ofParams (given ((relation.params.map (·.getD "")).rdropWhile (·.isEmpty)))
      relation.kind = relation := by
    rw [given_rdropWhile, given_map_getD h, ofParams_params]
  have kept : ∀ text ∈ (relation.params.map (·.getD "")).rdropWhile (·.isEmpty),
      Text.IsTrimmed text ∧ ',' ∉ text.toList := by
    intro text mem
    obtain ⟨param, isParam, rfl⟩ := List.mem_map.1 ((List.rdropWhile_prefix _ _).mem mem)
    cases param with
    | none => exact ⟨⟨by simp, by simp⟩, by simp⟩
    | some value => exact ⟨(h value isParam).trimmed, (h value isParam).clear ',' (by simp)⟩
  have shown : ((relation.params.map (·.getD "")).reverse.dropWhile (·.isEmpty)).reverse =
      (relation.params.map (·.getD "")).rdropWhile (·.isEmpty) := rfl
  unfold definition
  dsimp only
  rw [shown]
  revert back kept
  generalize (relation.params.map (·.getD "")).rdropWhile (·.isEmpty) = texts
  intro back kept
  cases texts with
  | nil =>
    have absent : Text.cut? ':' relation.kind.name = none := Text.cut?_eq_none.2 colon
    have blank : given ((Text.split ',' "").map Text.strip) = given [] := by
      funext place
      cases place <;> rfl
    refine parse_eq_ok.2
      ⟨by simpa using filled "", relation.kind.name, "", relation.kind, by
        rw [absent]; rfl, known, ?_⟩
    rw [blank, back]
  | cons text texts =>
    dsimp only
    refine parse_eq_ok.2
      ⟨by rw [String.append_assoc]; exact filled _, relation.kind.name,
        Text.join "," (text :: texts), relation.kind, ?_,
        known, ?_⟩
    · rw [Text.cut?_append rfl colon]
      rfl
    · rw [Definition.map_strip_split_join rfl (List.cons_ne_nil text texts) kept, back]

end Relation

/-- A field or relation that was read from a definition is read again from the definition written
for it: with the same type and parameters and with the same validation tokens in their order; with
its target and each of its further parameters, or without it. -/
theorem Definition.parse_definition_of_parse (definition : String) :
    (∀ field, Field.parse definition = .ok field → Field.parse field.definition = .ok field) ∧
      ∀ relation, Relation.parse definition = .ok relation →
        Relation.parse relation.definition = .ok relation :=
  ⟨fun _ read => Field.parse_definition (Field.isDefinable_of_parse read),
    fun _ read => Relation.parse_definition (Relation.isDefinable_of_parse read)⟩

/-- Digits of another script, white space, an empty token, a parameter left out in the middle and
one too many. -/
theorem Definition.parse_definition_of_parse_gaps :
    (Field.parse "decimal : ٣, 02|nullable||default:0" = .ok ⟨"decimal", some (.decimal 3 2),
      ["nullable", "default:0"]⟩ ∧ Field.parse
        (Field.definition ⟨"decimal", some (.decimal 3 2), ["nullable", "default:0"]⟩) =
        .ok ⟨"decimal", some (.decimal 3 2), ["nullable", "default:0"]⟩) ∧
    (Relation.parse " belongsToMany:Tag,,post_id,,x" =
      .ok (.belongsToMany (some "Tag") none (some "post_id") none) ∧
      Relation.parse (Relation.definition
        (.belongsToMany (some "Tag") none (some "post_id") none)) =
        .ok (.belongsToMany (some "Tag") none (some "post_id") none)) :=
  have field : Field.parse "decimal : ٣, 02|nullable||default:0" =
      .ok ⟨"decimal", some (.decimal 3 2), ["nullable", "default:0"]⟩ := by decide +kernel
  have relation : Relation.parse " belongsToMany:Tag,,post_id,,x" =
      .ok (.belongsToMany (some "Tag") none (some "post_id") none) := by decide +kernel
  ⟨⟨field, (Definition.parse_definition_of_parse _).1 _ field⟩,
    ⟨relation, (Definition.parse_definition_of_parse _).2 _ relation⟩⟩

end Scaffold
