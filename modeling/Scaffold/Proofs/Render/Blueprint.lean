import Scaffold.Proofs.Outcomes
import Scaffold.Proofs.Php.Statements
import Scaffold.Render.Migration

/-!
# Changes of a table

What the statements of a migration change of the columns and the foreign keys of a table, read from
their text: names count as the language reads them between their quotes. A statement that is not
known makes a text unreadable, so that nothing is passed over. Where names stand for themselves
between quotes, the statements that add the fields of a users entity and those that take them away
are read as `addChanges` and `dropChanges`.
-/

namespace Scaffold.Render
set_option autoImplicit false

open Php (Link Says IsVerbatim Passes)

inductive Change where
  | addColumn (name : String)
  | addKey (column : String)
  | dropKey (column : String)
  | dropColumn (name : String)
  deriving DecidableEq, Repr

/-- The methods that add a column of the name that is their first argument. -/
def columnCalls : List String :=
  ["foreignId", "unsignedBigInteger", "enum", "decimal", "string", "text", "longText", "integer",
    "boolean", "date", "dateTime", "timestamp", "json", "float", "uuid"]

/-- The methods that are called on a column and make no foreign key. -/
def modifierCalls : List String := ["nullable", "useCurrent", "default", "unique"]

/-- The foreign key that a call on a column makes. -/
def keysOf? (column : String) (link : Link) : Option (List Change) :=
  if modifierCalls.contains link.name then some []
  else if link.name = "constrained" then link.text?.map fun _ => [.addKey column]
  else none

/-- The changes of a call that adds a column, with the calls on the column. -/
def columnChanges? (first : Link) (more : List Link) : Option (List Change) :=
  first.text?.bind fun column => (more.mapM (keysOf? column)).map fun keys =>
    .addColumn column :: keys.flatten

/-- The changes of any other call on a table. -/
def commandChanges? (first : Link) : List Link → Option (List Change)
  | [] =>
    match first.name with
    | "softDeletes" => if first.arguments = [] then some [.addColumn "deleted_at"] else none
    | "index" => first.text?.map fun _ => []
    | "dropSoftDeletes" => if first.arguments = [] then some [.dropColumn "deleted_at"] else none
    | "dropConstrainedForeignId" =>
      first.text?.map fun column => [.dropKey column, .dropColumn column]
    | "dropForeign" => first.texts?.bind fun columns =>
      match columns with
      | [column] => some [.dropKey column]
      | _ => none
    | "dropColumn" => first.texts?.map fun columns => columns.map .dropColumn
    | _ => none
  | [references, on] =>
    if first.name = "foreign" ∧ references.name = "references" ∧ references.text?.isSome ∧
      on.name = "on" ∧ on.text?.isSome then
      first.text?.map fun column => [.addKey column]
    else none
  | _ => none

/-- The changes that a chain of calls makes to a table. -/
def changesOf? : List Link → Option (List Change)
  | [] => none
  | first :: more =>
    if columnCalls.contains first.name then columnChanges? first more
    else commandChanges? first more

/-- The changes that a line makes; a comment makes none. -/
def lineChanges? (line : String) : Option (List Change) :=
  if line = "//" then some []
  else
    match Php.chain? line.toList with
    | some (owner, links) => if owner = "table" then changesOf? links else none
    | none => none

/-- The changes that lines make one after another. -/
def changes? : List String → Option (List Change)
  | [] => some []
  | line :: lines => (lineChanges? line).bind fun first => (changes? lines).map (first ++ ·)

/-- What the statements for a field change. -/
def fieldChanges (f : String × Field) : List Change :=
  .addColumn f.1 :: if isForeign f.2 then [.addKey f.1] else []

/-- What the statement changes that drops the foreign key of a field. -/
def keyDrops (f : String × Field) : List Change :=
  if isForeign f.2 then .dropKey f.1 :: if isKeyName f.1 then [.dropColumn f.1] else [] else []

/-- The column of soft deletion, if the entity has one. -/
def softColumns (e : Entity) : List String := if e.hasSoftDeletes then ["deleted_at"] else []

/-- What the migration of a users entity adds. -/
def addChanges (e : Entity) : List Change :=
  (addedFields e).flatMap fieldChanges ++ (softColumns e).map .addColumn

/-- What it takes away when it is undone. -/
def dropChanges (e : Entity) : List Change :=
  (addedFields e).flatMap keyDrops ++
    (softColumns e ++ plainColumns (addedFields e)).map .dropColumn

variable {line name said table : String} {lines more : List String} {links : List Link}
  {changes others : List Change} {field : Field}

theorem changes?_append (first : changes? lines = some changes)
    (second : changes? more = some others) :
    changes? (lines ++ more) = some (changes ++ others) := by
  induction lines generalizing changes with
  | nil =>
    obtain rfl := Option.some.inj first
    exact second
  | cons line lines ih =>
    obtain ⟨here, read, rest⟩ := Option.bind_eq_some_iff.1 first
    obtain ⟨later, further, rfl⟩ := Option.map_eq_some_iff.1 rest
    rw [List.cons_append, changes?, read, Option.bind_some, ih further, Option.map_some,
      List.append_assoc]

theorem changes?_single (h : lineChanges? line = some changes) :
    changes? [line] = some changes := by
  simp [changes?, h]

/-- A statement is read by the calls that it is made of. -/
theorem lineChanges?_of_chars (formed : ∀ link ∈ links, link.IsFormed)
    (chars : line.toList = '$' :: ("table".toList ++ (links.flatMap Link.chars ++ [';']))) :
    lineChanges? line = changesOf? links := by
  have statement : line ≠ "//" := by
    rintro rfl
    cases chars
  have read := Php.chain?_chars (by decide : Php.isName "table" = true) formed
  rw [← chars] at read
  simp only [lineChanges?, if_neg statement, read, if_true]

/-- A call whose first argument is a literal. -/
theorem isFormed_quoted {method : String} (named : Php.isName method = true) (told : Says name said)
    {after : List Char} (passes : Passes after) :
    Link.IsFormed ⟨method, '\'' :: (name.toList ++ '\'' :: after)⟩ := by
  refine ⟨named, ?_⟩
  have quoted : Passes ('\'' :: (name.toList ++ ['\''])) := .quoted told
  simpa using quoted.append passes

/-- A call with the name of a method and no arguments. -/
theorem isFormed_bare {method : String} (named : Php.isName method = true) :
    Link.IsFormed ⟨method, []⟩ := ⟨named, .nil⟩

/-- A modifier as a call. -/
theorem exists_link_of_mem_columnModifiers {modifier : String}
    (mem : modifier ∈ columnModifiers field) : ∃ link : Link,
    modifier.toList = link.chars ∧ link.IsFormed ∧ modifierCalls.contains link.name = true := by
  simp only [columnModifiers, List.mem_append] at mem
  rcases mem with (nullable | default) | unique
  · split at nullable
    · obtain rfl := List.mem_singleton.1 nullable
      exact ⟨⟨"nullable", []⟩, by decide, isFormed_bare (by decide), by decide⟩
    · cases nullable
  · split at default
    · rename_i value _
      split at default
      · obtain rfl := List.mem_singleton.1 default
        exact ⟨⟨"useCurrent", []⟩, by decide, isFormed_bare (by decide), by decide⟩
      · obtain rfl := List.mem_singleton.1 default
        exact ⟨⟨"default", (Php.scalar value).toList⟩,
          by simp [Link.chars], ⟨(by decide : Php.isName "default" = true), .scalar value⟩,
          (by decide : modifierCalls.contains "default" = true)⟩
    · cases default
  · split at unique
    · obtain rfl := List.mem_singleton.1 unique
      exact ⟨⟨"unique", []⟩, by decide, isFormed_bare (by decide), by decide⟩
    · cases unique

/-- The modifiers of a column are calls on it that make no foreign key. -/
theorem exists_modifiers (field : Field) :
    ∃ links : List Link, (String.join (columnModifiers field)).toList = links.flatMap Link.chars ∧
    ∀ link ∈ links, link.IsFormed ∧ modifierCalls.contains link.name = true := by
  have each : ∀ modifiers ⊆ columnModifiers field, ∃ links : List Link,
      modifiers.flatMap String.toList = links.flatMap Link.chars ∧
        ∀ link ∈ links, link.IsFormed ∧ modifierCalls.contains link.name = true := by
    intro modifiers within
    induction modifiers with
    | nil => exact ⟨[], rfl, by simp⟩
    | cons modifier modifiers ih =>
      obtain ⟨mem, others⟩ := List.cons_subset.1 within
      obtain ⟨link, chars, formed⟩ := exists_link_of_mem_columnModifiers mem
      obtain ⟨links, joined, further⟩ := ih others
      exact ⟨link :: links, by simp [chars, joined], List.forall_mem_cons.2 ⟨formed, further⟩⟩
  obtain ⟨links, joined, formed⟩ := each _ (List.Subset.refl _)
  exact ⟨links, by rw [String.toList_join, joined], formed⟩

/-- The call that adds a column names it first, and behind its parts stands a foreign key. -/
structure Parts (name : String) (field : Field) (parts : String × String × List String) : Prop where
  column : ∃ method ∈ columnCalls, ∃ after, Passes after ∧ (after = [] ∨ after.head? = some ',') ∧
    parts.1.toList = '$' ::
      ("table".toList ++ Link.chars ⟨method, '\'' :: (name.toList ++ '\'' :: after)⟩)
  tail : parts.2.1 = if isForeign field && isKeyName name then "->constrained('" ++
    field.foreignTable?.getD "" ++ "')" else ""
  extra : parts.2.2 = if isForeign field && !isKeyName name then
    ["$table->foreign('" ++ name ++ "')->references('id')->on('" ++ field.foreignTable?.getD "" ++
      "');"] else []

theorem columnMethod_mem (type : Option FieldType) : columnMethod type ∈ columnCalls := by
  cases type with
  | none => decide
  | some type => cases type <;> decide

/-- The parts of a column without a foreign key. -/
theorem parts_plain {method column : String} {after : List Char}
    (other : field.type? ≠ some .foreign) (mem : method ∈ columnCalls)
    (passes : Passes after) (apart : after = [] ∨ after.head? = some ',')
    (chars : column.toList =
      '$' :: ("table".toList ++ Link.chars ⟨method, '\'' :: (name.toList ++ '\'' :: after)⟩)) :
    Parts name field (column, "", []) := by
  have plain : isForeign field = false := by simp [isForeign, other]
  exact ⟨⟨method, mem, after, passes, apart, chars⟩, by simp [plain], by simp [plain]⟩

theorem parts_of_columnParts {parts : String × String × List String}
    (made : columnParts name field = .ok parts) :
    Parts name field parts := by
  unfold columnParts at made
  split at made
  · -- a foreign key: by its name it is made on the column or by a statement of its own
    rename_i foreign
    have key : isForeign field = true := by simp [isForeign, foreign]
    split at made
    · rename_i usual
      obtain rfl := Except.ok.inj made
      exact ⟨⟨"foreignId", by decide, [], .nil, .inl rfl, by simp [Link.chars, toString]⟩,
        by simp [key, usual, toString],
        by simp [usual]⟩
    · rename_i unusual
      obtain rfl := Except.ok.inj made
      exact ⟨⟨"unsignedBigInteger", by decide, [], .nil, .inl rfl, by simp [Link.chars, toString]⟩,
        by simp [unusual],
        by simp [key, unusual, toString]⟩
  · rename_i string
    have other : field.type? ≠ some .foreign := by simp [string]
    obtain ⟨length, -, rfl⟩ := map_eq_ok.1 made
    cases length with
    | none =>
      exact parts_plain other
        (by decide : "string" ∈ columnCalls) .nil (.inl rfl) (by simp [Link.chars, toString])
    | some length =>
      exact parts_plain other
        (by decide : "string" ∈ columnCalls) (.append .comma (.number length)) (.inr rfl)
        (by simp [Link.chars, toString])
  · rename_i enumeration
    have other : field.type? ≠ some .foreign := by simp [enumeration]
    obtain rfl := Except.ok.inj made
    exact parts_plain other
      (by decide : "enum" ∈ columnCalls) (.append .comma (.array field.enumValues)) (.inr rfl)
      (by simp [Link.chars, toString])
  · rename_i precision scale decimal _
    have other : field.type? ≠ some .foreign := by simp [decimal]
    obtain rfl := Except.ok.inj made
    exact parts_plain other (by decide : "decimal" ∈ columnCalls)
      (.append .comma (.append (.number precision) (.append .comma (.number scale)))) (.inr rfl)
      (by simp [Link.chars, toString])
  · rename_i other _ _ _
    obtain rfl := Except.ok.inj made
    exact parts_plain (fun foreign => other foreign) (columnMethod_mem field.type?) .nil (.inl rfl)
      (by simp [Link.chars, toString])

/-- Modifiers make no foreign key. -/
theorem mapM_keysOf? (name : String)
    (modifiers : ∀ link ∈ links, modifierCalls.contains link.name = true) :
    links.mapM (keysOf? name) = some (links.map fun _ => []) := by
  induction links with
  | nil => rfl
  | cons link links ih =>
    obtain ⟨first, others⟩ := List.forall_mem_cons.1 modifiers
    rw [List.mapM_cons, keysOf?, if_pos first, ih others]
    rfl

/-- The statement that adds a column, with the foreign key that it makes on it. -/
theorem lineChanges?_column {parts : String × String × List String} (h : Parts name field parts)
    (verbatim : IsVerbatim name)
    (told : isForeign field = true → Says (field.foreignTable?.getD "") said) :
    lineChanges? (parts.1 ++ String.join (columnModifiers field) ++ parts.2.1 ++ ";") =
      some (.addColumn name :: if isForeign field && isKeyName name then [.addKey name]
        else []) := by
  obtain ⟨⟨method, known, after, passes, apart, column⟩, tail, -⟩ := h
  obtain ⟨modifiers, joined, formed⟩ := exists_modifiers field
  have named : ∀ method ∈ columnCalls, Php.isName method = true := by decide
  let first : Link := ⟨method, '\'' :: (name.toList ++ '\'' :: after)⟩
  have adds (more : List Link) : changesOf? (first :: more) = columnChanges? first more :=
    if_pos (List.contains_iff_mem.2 known)
  have reads : first.text? = some name := Link.text?_quoted verbatim method apart
  have added : first.IsFormed := isFormed_quoted (named method known) verbatim passes
  have plain := mapM_keysOf? name fun link mem => (formed link mem).2
  by_cases constrained : (isForeign field && isKeyName name) = true
  · let last : Link := ⟨"constrained", '\'' :: ((field.foreignTable?.getD "").toList ++ ['\''])⟩
    have points : Says (field.foreignTable?.getD "") said :=
      told (Bool.and_eq_true_iff.1 constrained).1
    have ends : keysOf? name last = some [.addKey name] := by
      have reads : last.text? = some said := Link.text?_quoted points "constrained" (.inl rfl)
      rw [keysOf?, if_neg (by decide : ¬ modifierCalls.contains "constrained" = true), if_pos rfl,
        reads, Option.map_some]
    have whole : ∀ link ∈ first :: (modifiers ++ [last]), link.IsFormed := by
      refine List.forall_mem_cons.2
        ⟨added, List.forall_mem_append.2 ⟨fun link mem => (formed link mem).1, ?_⟩⟩
      exact List.forall_mem_singleton.2 (isFormed_quoted (by decide) points .nil)
    rw [if_pos constrained] at tail ⊢
    rw [lineChanges?_of_chars whole (by simp [column, joined, tail, first, last, Link.chars]), adds,
      columnChanges?, reads, Option.bind_some, List.mapM_append, plain]
    simp [ends]
  · have whole : ∀ link ∈ first :: modifiers, link.IsFormed :=
      List.forall_mem_cons.2 ⟨added, fun link mem => (formed link mem).1⟩
    rw [if_neg constrained] at tail ⊢
    rw [lineChanges?_of_chars whole (by simp [column, joined, tail, first, Link.chars]), adds,
      columnChanges?, reads, Option.bind_some, plain]
    simp

/-- A call whose only argument is a text between quotes. -/
def naming (method text : String) : Link := ⟨method, '\'' :: (text.toList ++ ['\''])⟩

theorem text?_naming (method : String) (told : Says name said) :
    (naming method name).text? = some said :=
  Link.text?_quoted told method (.inl rfl)

theorem isFormed_naming {method : String} (named : Php.isName method = true)
    (told : Says name said) : (naming method name).IsFormed :=
  isFormed_quoted named told .nil

/-- A statement that is one call. -/
theorem lineChanges?_call {call : Link} (formed : call.IsFormed) (other : call.name ∉ columnCalls)
    (chars : line.toList = '$' :: ("table".toList ++ (call.chars ++ [';']))) :
    lineChanges? line = commandChanges? call [] := by
  have whole : ∀ link ∈ [call], link.IsFormed := List.forall_mem_singleton.2 formed
  rw [lineChanges?_of_chars whole (by simpa using chars), changesOf?, if_neg (by simpa using other)]

/-- A statement of its own that makes a foreign key. -/
theorem lineChanges?_foreign (verbatim : IsVerbatim name) (told : Says table said) :
    lineChanges? ("$table->foreign('" ++ name ++ "')->references('id')->on('" ++ table ++ "');") =
      some [.addKey name] := by
  have id : IsVerbatim "id" := by decide
  have formed : ∀ link ∈ [naming "foreign" name, naming "references" "id", naming "on" table],
      link.IsFormed := by
    refine List.forall_mem_cons.2 ⟨isFormed_naming (by decide) verbatim,
      List.forall_mem_cons.2 ⟨?_, ?_⟩⟩
    · exact isFormed_naming (by decide) id
    · exact List.forall_mem_singleton.2 (isFormed_naming (by decide) told)
  have other : ¬ columnCalls.contains (naming "foreign" name).name =
    true := (by decide : ¬ columnCalls.contains "foreign" = true)
  rw [lineChanges?_of_chars formed (by simp [naming, Link.chars]), changesOf?, if_neg other,
    commandChanges?, text?_naming _ verbatim, text?_naming _ id, text?_naming _ told]
  rfl

/-- A statement that makes an index changes nothing of the columns. -/
theorem lineChanges?_index (verbatim : IsVerbatim name) :
    lineChanges? ("$table->index('" ++ name ++ "');") = some [] := by
  have formed := isFormed_naming (by decide : Php.isName "index" = true) verbatim
  have means :
    commandChanges? (naming "index" name) [] = (naming "index" name).text?.map fun _ => [] := rfl
  rw [lineChanges?_call formed (by decide : "index" ∉ columnCalls) (by simp [naming, Link.chars]),
    means, text?_naming _ verbatim]
  rfl

theorem lineChanges?_softDeletes :
    lineChanges? "$table->softDeletes();" = some [.addColumn "deleted_at"] := by decide +kernel

theorem lineChanges?_dropSoftDeletes :
    lineChanges? "$table->dropSoftDeletes();" = some [.dropColumn "deleted_at"] := by decide +kernel

/-- What drops a foreign key with its column. -/
theorem lineChanges?_dropConstrainedForeignId (verbatim : IsVerbatim name) :
    lineChanges? ("$table->dropConstrainedForeignId('" ++ name ++ "');") = some [.dropKey name,
      .dropColumn name] := by
  have formed := isFormed_naming (by decide : Php.isName "dropConstrainedForeignId" = true) verbatim
  have means : commandChanges? (naming "dropConstrainedForeignId" name) [] =
      (naming "dropConstrainedForeignId" name).text?.map fun column =>
        [.dropKey column, .dropColumn column] := rfl
  rw [lineChanges?_call formed (by decide : "dropConstrainedForeignId" ∉ columnCalls)
    (by simp [naming, Link.chars]), means, text?_naming _ verbatim]
  rfl

theorem lineChanges?_dropForeign (verbatim : IsVerbatim name) :
    lineChanges? ("$table->dropForeign(['" ++ name ++ "']);") = some [.dropKey name] := by
  let call : Link := ⟨"dropForeign", '[' :: '\'' :: (name.toList ++ ['\'', ']'])⟩
  have formed : call.IsFormed := by
    refine ⟨(by decide : Php.isName "dropForeign" = true), ?_⟩
    have quoted : Passes ('\'' :: (name.toList ++ ['\''])) := .quoted verbatim
    simpa [call] using quoted.brackets
  have reads : call.texts? = some [name] := Link.texts?_quoted verbatim _
  have means : commandChanges? call [] = call.texts?.bind fun columns =>
      match columns with
      | [column] => some [.dropKey column]
      | _ => none := rfl
  rw [lineChanges?_call formed (by decide : "dropForeign" ∉ columnCalls)
    (by simp [call, Link.chars]), means, reads]
  rfl

/-- Columns are dropped by their names whatever stands in them. -/
theorem lineChanges?_dropColumn (names : List String) :
    lineChanges? ("$table->dropColumn(" ++ Php.array names ++ ");") =
      some (names.map .dropColumn) := by
  let call : Link := ⟨"dropColumn", (Php.array names).toList⟩
  have formed : call.IsFormed := ⟨(by decide : Php.isName "dropColumn" = true), .array names⟩
  have reads : call.texts? = some names := Link.texts?_array _ names
  have means :
    commandChanges? call [] = call.texts?.map fun columns => columns.map .dropColumn := rfl
  rw [lineChanges?_call formed (by decide : "dropColumn" ∉ columnCalls)
    (by simp [call, Link.chars]), means, reads]
  rfl

/-! ## The statements of a users entity -/

/-- The names of a field are what is between their quotes, and so is the table of its foreign key in
some way. -/
structure IsTold (f : String × Field) : Prop where
  name : IsVerbatim f.1
  table : isForeign f.2 = true → ∃ said, Says (f.2.foreignTable?.getD "") said

/-- The statements for a field add its column, and its foreign key if it has one. -/
theorem changes?_columnLines (told : IsTold (name, field))
    (made : columnLines name field = .ok lines) :
    changes? lines = some (fieldChanges (name, field)) := by
  obtain ⟨⟨column, tail, extra⟩, cut, rfl⟩ := map_eq_ok.1 made
  have h := parts_of_columnParts cut
  have index :
      changes? (if field.hasIndex then [s!"$table->index('{name}');"] else []) = some [] := by
    split
    · exact changes?_single (lineChanges?_index told.name)
    · rfl
  have key : changes? extra = some (if isForeign field && !isKeyName name then [.addKey name]
      else []) := by
    have same : extra = _ := h.extra
    rw [same]
    split
    · rename_i foreign
      obtain ⟨said, points⟩ := told.table (Bool.and_eq_true_iff.1 foreign).1
      exact changes?_single (lineChanges?_foreign told.name points)
    · rfl
  have points : ∃ said, isForeign field = true → Says (field.foreignTable?.getD "") said := by
    by_cases foreign : isForeign field = true
    · obtain ⟨said, points⟩ := told.table foreign
      exact ⟨said, fun _ => points⟩
    · exact ⟨"", fun foreign' => absurd foreign' foreign⟩
  obtain ⟨said, points⟩ := points
  have first := changes?_single (lineChanges?_column h told.name points)
  have same :
      (Change.addColumn name :: if isForeign field && isKeyName name then [.addKey name] else []) ++
      (if isForeign field && !isKeyName name then [.addKey name] else []) ++ [] = fieldChanges
        (name, field) := by
    rw [fieldChanges]
    cases isForeign field <;> cases isKeyName name <;> rfl
  rw [← same]
  exact changes?_append (changes?_append first key) index

theorem changes?_columnsLines {fields : List (String × Field)} (told : ∀ f ∈ fields, IsTold f)
    (made : columnsLines fields = .ok lines) :
    changes? lines = some (fields.flatMap fieldChanges) := by
  obtain ⟨lists, cut, rfl⟩ := map_eq_ok.1 made
  have each := mapM_eq_ok.1 cut
  clear cut made
  induction each with
  | nil => rfl
  | @cons f lines fields lists first _ ih =>
    obtain ⟨told, others⟩ := List.forall_mem_cons.1 told
    rw [List.flatten_cons, List.flatMap_cons]
    exact changes?_append (changes?_columnLines told first) (ih others)

/-- What the migration of a users entity adds is what its statements say. -/
theorem changes?_add {e : Entity} (told : ∀ f ∈ addedFields e, IsTold f)
    (made : columnsLines (addedFields e) = .ok lines) :
    changes? (lines ++ if e.hasSoftDeletes then ["$table->softDeletes();"] else []) =
      some (addChanges e) := by
  refine changes?_append (changes?_columnsLines told made) ?_
  rw [softColumns]
  split
  · exact changes?_single lineChanges?_softDeletes
  · rfl

/-- The statements that drop foreign keys, and columns with them. -/
theorem changes?_dropKeys {fields : List (String × Field)} (told : ∀ f ∈ fields, IsTold f) :
    changes? (fields.filterMap fun f => dropKeyLine? f.1 f.2) = some (fields.flatMap keyDrops) := by
  induction fields with
  | nil => rfl
  | cons f fields ih =>
    obtain ⟨first, others⟩ := List.forall_mem_cons.1 told
    have here : changes? (dropKeyLine? f.1 f.2).toList = some (keyDrops f) := by
      rw [dropKeyLine?, keyDrops]
      cases isForeign f.2 with
      | false => rfl
      | true =>
        cases isKeyName f.1 with
        | true =>
          simpa [toString] using changes?_single (lineChanges?_dropConstrainedForeignId first.name)
        | false => simpa [toString] using changes?_single (lineChanges?_dropForeign first.name)
    have cut : (f :: fields).filterMap (fun f => dropKeyLine? f.1 f.2) =
        (dropKeyLine? f.1 f.2).toList ++ fields.filterMap fun f => dropKeyLine? f.1 f.2 := by
      cases dropped : dropKeyLine? f.1 f.2 <;> simp [dropped]
    rw [cut, List.flatMap_cons]
    exact changes?_append here (ih others)

/-- What the migration of a users entity takes away is what its statements say. -/
theorem changes?_drop {e : Entity} (told : ∀ f ∈ addedFields e, IsTold f) :
    changes? (dropLines e) = some (dropChanges e) := by
  rw [dropChanges, List.map_append, ← List.append_assoc]
  refine changes?_append (changes?_append (changes?_dropKeys told) ?_) ?_
  · rw [softColumns]
    split
    · exact changes?_single lineChanges?_dropSoftDeletes
    · rfl
  · split
    · rename_i empty
      rw [List.isEmpty_iff.1 empty]
      rfl
    · exact changes?_single (lineChanges?_dropColumn _)

end Scaffold.Render
