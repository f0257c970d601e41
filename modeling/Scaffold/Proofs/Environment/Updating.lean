import Scaffold.Proofs.Environment.Assignments
import Scaffold.Proofs.Environment.Values
import Scaffold.Proofs.OrderedMaps

/-!
# Updating environment files

Of the lines that assign a key, an update sets the first, and a key without a line gets one at the
end; all other lines stay as they are (`Environment.update_sets`). What is read again for a key,
then, is the text it was set to. A line that assigns the key again stays as it is, behind the new
value (`Environment.filter_assigns_update`), so an updated text agrees with its values exactly if
such lines did so before (`Environment.agrees_update_iff`).
-/

namespace Scaffold.Environment
set_option autoImplicit false

/-- The place of the first line that assigns a key. -/
def firstLine? (key : String) (lines : List String) : Option Nat := lines.findIdx? (assigns key)

/-- The lines with values set: the first line of a key is its assignment, and every other line
stays. -/
structure Renews (values : Values) (lines renewed : List String) : Prop where
  length : renewed.length = lines.length
  assigned : ∀ key value place, values.get? key = some value → firstLine? key lines = some place →
    renewed[place]? = some (assignment key value)
  kept : ∀ place, (∀ key ∈ values.keys, firstLine? key lines ≠ some place) →
    renewed[place]? = lines[place]?

/-- The entries whose keys no line assigns. -/
def missing (values : Values) (lines : List String) : List (String × String) :=
  values.entries.filter fun entry => (firstLine? entry.1 lines).isNone

/-- The lines that set the keys which no line assigns. -/
def addedLines (values : Values) (lines : List String) : List String :=
  (missing values lines).map fun entry => assignment entry.1 entry.2

/-- The lines that assign a key again, behind the first one. -/
def repeated (key : String) (lines : List String) : List String := (lines.filter (assigns key)).tail

/-- The text that a key is set to: what the first line that assigns it gives. -/
def setting? (key : String) (lines : List String) : Option String :=
  ((lines.find? (assigns key)).bind assignedValue?).bind unquoted?

/-- Texts as values. -/
def ofTexts (texts : OrderedMap String) : Values := texts.map fun text => value (.string text)

/-! ## One line -/

section
variable {values : Values} {key value line : String} {rest renewed : List String}

/-- A line either assigns a key that has a value, and is replaced, or it stays. -/
theorem replaceLines_cases (values : Values) (line : String) (rest : List String) :
    (∃ key value, assignedKey? line = some key ∧ values.get? key = some value ∧
      replaceLines values (line :: rest) =
        (assignment key value :: (replaceLines (values.erase key) rest).1,
          (replaceLines (values.erase key) rest).2)) ∨
    ((∀ key ∈ values.keys, assigns key line = false) ∧
      replaceLines values (line :: rest) = (line :: (replaceLines values rest).1,
        (replaceLines values rest).2)) := by
  cases found : (assignedKey? line).bind fun key => (values.get? key).map fun value =>
      (key, value) with
  | some entry =>
    obtain ⟨key, isKey, given⟩ := Option.bind_eq_some_iff.1 found
    obtain ⟨value, isValue, rfl⟩ := Option.map_eq_some_iff.1 given
    exact .inl ⟨key, value, isKey, isValue,
      by rw [replaceLines.eq_def]; simp only [found, assignment]⟩
  | none =>
    refine .inr ⟨fun key named => ?_, by rw [replaceLines.eq_def]; simp only [found]⟩
    obtain ⟨value, given⟩ := OrderedMap.mem_keys.1 named
    refine Bool.eq_false_iff.2 fun here => ?_
    rw [beq_iff_eq.1 here, Option.bind_some, given] at found
    cases found

theorem firstLine?_cons_of_assigned (h : assignedKey? line = some key) (other : String)
    (rest : List String) : firstLine? other (line :: rest) = if other = key then some 0
      else (firstLine? other rest).map (· + 1) := by
  have here : assigns other line = true ↔ other = key := by
    rw [assigns, h, beq_iff_eq, Option.some.injEq, eq_comm]
  simp only [firstLine?, List.findIdx?_cons, here]

theorem firstLine?_cons_of_not (h : assigns key line = false) (rest : List String) :
    firstLine? key (line :: rest) = (firstLine? key rest).map (· + 1) := by
  rw [firstLine?, List.findIdx?_cons, if_neg (by simp [h]), firstLine?]

theorem Renews.cons_assigned (h : assignedKey? line = some key)
    (given : values.get? key = some value) (rec : Renews (values.erase key) rest renewed) :
    Renews values (line :: rest) (assignment key value :: renewed) where
  length := congrArg (· + 1) rec.length
  assigned other text place isText first := by
    rw [firstLine?_cons_of_assigned h] at first
    split at first
    · rename_i same
      obtain rfl := Option.some.inj first
      rw [same, given] at isText
      rw [same, Option.some.inj isText]
      rfl
    · rename_i apart
      obtain ⟨before, found, rfl⟩ := Option.map_eq_some_iff.1 first
      exact rec.assigned other text before (OrderedMap.get?_erase_eq_some.2 ⟨isText, apart⟩) found
  kept place free := by
    cases place with
    | zero =>
      exact absurd (by rw [firstLine?_cons_of_assigned h, if_pos rfl])
        (free key (OrderedMap.mem_keys.2 ⟨value, given⟩))
    | succ place =>
      refine rec.kept place fun other named first => ?_
      obtain ⟨text, isText⟩ := OrderedMap.mem_keys.1 named
      obtain ⟨isText, apart⟩ := OrderedMap.get?_erase_eq_some.1 isText
      refine free other (OrderedMap.mem_keys.2 ⟨text, isText⟩) ?_
      rw [firstLine?_cons_of_assigned h, if_neg apart, first]
      rfl

theorem Renews.cons_kept (stays : ∀ key ∈ values.keys, assigns key line = false)
    (rec : Renews values rest renewed) : Renews values (line :: rest) (line :: renewed) where
  length := congrArg (· + 1) rec.length
  assigned key value place given first := by
    rw [firstLine?_cons_of_not (stays key (OrderedMap.mem_keys.2 ⟨value, given⟩))] at first
    obtain ⟨before, found, rfl⟩ := Option.map_eq_some_iff.1 first
    exact rec.assigned key value before given found
  kept place free := by
    cases place with
    | zero => rfl
    | succ place =>
      refine rec.kept place fun key named first => free key named ?_
      rw [firstLine?_cons_of_not (stays key named), first]
      rfl

end

/-! ## All lines -/

section
variable {values : Values} {lines renewed others : List String} {key value first : String}

theorem renews_replaceLines (values : Values) (lines : List String) :
    Renews values lines (replaceLines values lines).1 := by
  induction lines generalizing values with
  | nil => exact ⟨rfl, fun _ _ _ _ first => (nomatch first), fun _ _ => rfl⟩
  | cons line rest ih =>
    rcases replaceLines_cases values line rest with ⟨key, value, isKey, given, eq⟩ | ⟨stays, eq⟩
    · rw [eq]
      exact .cons_assigned isKey given (ih (values.erase key))
    · rw [eq]
      exact .cons_kept stays (ih values)

/-- The values left over are those of keys that no line assigns. -/
theorem entries_replaceLines (values : Values) (lines : List String) :
    (replaceLines values lines).2.entries = missing values lines := by
  induction lines generalizing values with
  | nil => exact (List.filter_eq_self.2 fun _ _ => rfl).symm
  | cons line rest ih =>
    rcases replaceLines_cases values line rest with ⟨key, value, isKey, given, eq⟩ | ⟨stays, eq⟩
    · rw [eq, ih, missing, missing, OrderedMap.erase, List.filter_filter]
      refine List.filter_congr fun entry _ => ?_
      rw [firstLine?_cons_of_assigned isKey]
      by_cases here : entry.1 = key <;> simp [here]
    · rw [eq, ih, missing, missing]
      refine List.filter_congr fun entry mem => ?_
      rw [firstLine?_cons_of_not (stays entry.1 (List.mem_map.2 ⟨entry, mem, rfl⟩)),
        Option.isNone_map]

theorem mem_missing : (key, value) ∈ missing values lines ↔ values.get? key = some value ∧
    firstLine? key lines = none := by
  rw [missing, List.mem_filter, OrderedMap.get?_eq_some, Option.isNone_iff_eq_none]

/-- A line that is set assigns the key that it assigned before. -/
theorem map_assignedKey?_replaceLines (values : Values) (lines : List String) :
    (replaceLines values lines).1.map assignedKey? = lines.map assignedKey? := by
  induction lines generalizing values with
  | nil => rfl
  | cons line rest ih =>
    rcases replaceLines_cases values line rest with ⟨key, value, isKey, given, eq⟩ | ⟨stays, eq⟩
    · rw [eq, List.map_cons, List.map_cons, ih,
        assignedKey?_assignment (isKey_of_assignedKey? isKey), isKey]
    · rw [eq, List.map_cons, List.map_cons, ih]

theorem firstLine?_replaceLines (values : Values) (lines : List String) (key : String) :
    firstLine? key (replaceLines values lines).1 = firstLine? key lines := by
  have ofKeys : ∀ lines : List String, firstLine? key lines = (lines.map assignedKey?).findIdx?
      (· == some key) := by
    intro lines
    rw [List.findIdx?_map]
    rfl
  rw [ofKeys, ofKeys, map_assignedKey?_replaceLines]

theorem filter_assigns_eq_nil : lines.filter (assigns key) = [] ↔ firstLine? key lines = none := by
  rw [List.filter_eq_nil_iff, firstLine?, List.findIdx?_eq_none_iff]
  simp

/-- The lines of a key without a value stay. -/
theorem filter_assigns_of_get?_eq_none (absent : values.get? key = none) :
    (replaceLines values lines).1.filter (assigns key) = lines.filter (assigns key) := by
  induction lines generalizing values with
  | nil => rfl
  | cons line rest ih =>
    rcases replaceLines_cases values line rest with ⟨other, text, isKey, isText, eq⟩ | ⟨-, eq⟩
    · have apart : other ≠ key := by
        rintro rfl
        rw [absent] at isText
        cases isText
      have absent : (values.erase other).get? key = none := by
        refine Option.eq_none_iff_forall_ne_some.2 fun value given => ?_
        rw [(OrderedMap.get?_erase_eq_some.1 given).1] at absent
        cases absent
      have before : assigns key line = false := by simp [assigns, isKey, apart]
      have after : assigns key (assignment other text) = false := by
        rw [assigns_assignment (isKey_of_assignedKey? isKey)]
        exact beq_eq_false_iff_ne.2 apart
      rw [eq, List.filter_cons_of_neg (Bool.eq_false_iff.1 after),
        List.filter_cons_of_neg (Bool.eq_false_iff.1 before), ih absent]
    · rw [eq, List.filter_cons, List.filter_cons, ih absent]

/-- Of the lines of a key with a value the first is set and the others stay. -/
theorem filter_assigns_of_get?_eq_some (given : values.get? key = some value)
    (found : lines.filter (assigns key) = first :: others) :
    (replaceLines values lines).1.filter (assigns key) = assignment key value :: others := by
  induction lines generalizing values with
  | nil => cases found
  | cons line rest ih =>
    rcases replaceLines_cases values line rest with ⟨other, text, isKey, isText, eq⟩ | ⟨stays, eq⟩
    · have after := assigns_assignment (isKey_of_assignedKey? isKey) key text
      by_cases same : other = key
      · subst same
        have here : assigns other line = true := by simp [assigns, isKey]
        rw [List.filter_cons_of_pos here] at found
        obtain ⟨-, rfl⟩ := List.cons.inj found
        obtain rfl := Option.some.inj (given.symm.trans isText)
        have erased : (values.erase other).get? other = none :=
          Option.eq_none_iff_forall_ne_some.2 fun value given =>
            (OrderedMap.get?_erase_eq_some.1 given).2 rfl
        rw [eq, List.filter_cons_of_pos (by simp [after]), filter_assigns_of_get?_eq_none erased]
      · have before : assigns key line = false := by simp [assigns, isKey, same]
        rw [List.filter_cons_of_neg (Bool.eq_false_iff.1 before)] at found
        rw [eq, List.filter_cons_of_neg (by simpa [after] using same)]
        exact ih (OrderedMap.get?_erase_eq_some.2 ⟨given, Ne.symm same⟩) found
    · have before := stays key (OrderedMap.mem_keys.2 ⟨value, given⟩)
      rw [List.filter_cons_of_neg (Bool.eq_false_iff.1 before)] at found
      rw [eq, List.filter_cons_of_neg (Bool.eq_false_iff.1 before), ih given found]

/-- A renewed line is a line from before or the assignment of a value. -/
theorem Renews.of_mem (renews : Renews values lines renewed) {line : String}
    (mem : line ∈ renewed) :
    line ∈ lines ∨ ∃ key value, values.get? key = some value ∧ line = assignment key value := by
  obtain ⟨place, here⟩ := List.mem_iff_getElem?.1 mem
  by_cases free : ∀ key ∈ values.keys, firstLine? key lines ≠ some place
  · rw [renews.kept place free] at here
    exact .inl (List.mem_of_getElem? here)
  · push Not at free
    obtain ⟨key, named, first⟩ := free
    obtain ⟨value, given⟩ := OrderedMap.mem_keys.1 named
    rw [renews.assigned key value place given first] at here
    exact .inr ⟨key, value, given, (Option.some.inj here).symm⟩

/-- The first line that assigns a key is found at its place. -/
theorem find?_of_firstLine? {place : Nat} {line : String}
    (first : firstLine? key lines = some place) (here : lines[place]? = some line) :
    lines.find? (assigns key) = some line := by
  obtain ⟨inside, found, before⟩ := List.findIdx?_eq_some_iff_getElem.1 first
  obtain ⟨_, rfl⟩ := List.getElem?_eq_some_iff.1 here
  exact List.find?_eq_some_iff_getElem.2 ⟨found, place, inside, rfl, fun j sooner =>
    by simpa using before j sooner⟩

/-- Where there are values there are lines: without any line all values are missing. -/
theorem Renews.filled (renews : Renews values lines renewed) (filled : values.isEmpty = false)
    (gap : List String) : renewed ++ gap ++ addedLines values lines ≠ [] := by
  intro empty
  simp only [List.append_eq_nil_iff, addedLines, List.map_eq_nil_iff] at empty
  have noLines : lines = [] := by
    rw [← List.length_eq_zero_iff, ← renews.length, empty.1.1, List.length_nil]
  have all : missing values lines = values.entries := by
    rw [noLines]
    exact List.filter_eq_self.2 fun _ _ => rfl
  rw [OrderedMap.isEmpty, ← all, empty.2] at filled
  cases filled

/-- What an update writes: the renewed lines and those that were missing, a blank line between them
or none. -/
theorem update_eq (text : String) (values : Values) :
    ∃ gap, (gap = [] ∨ gap = [""] ∧ missing values (Text.lines text) ≠ []) ∧
      update text values =
        Text.unlines ((replaceLines values (Text.lines text)).1 ++ gap ++ addedLines values
          (Text.lines text)) ++ "\n" := by
  have left := entries_replaceLines values (Text.lines text)
  refine ⟨_, ?_, by rw [addedLines, ← left]; rfl⟩
  split
  · exact .inl rfl
  · rename_i filled
    refine .inr ⟨rfl, fun empty => filled ?_⟩
    rw [OrderedMap.isEmpty, left, empty]
    rfl

end

/-! ## The whole text -/

section
variable {values : Values} {key value : String} (names : ∀ key ∈ values.keys, isKey key = true)

include names

/-- One line is added for a key that no line assigned, and none for any other. -/
theorem filter_assigns_addedLines (given : values.get? key = some value) (lines : List String) :
    (addedLines values lines).filter (assigns key) = if firstLine? key lines = none then
      [assignment key value] else [] := by
  have assigned : ∀ entry ∈ values.entries, assigns key (assignment entry.1 entry.2) =
      (entry.1 == key) := fun entry mem =>
    assigns_assignment (names entry.1 (List.mem_map.2 ⟨entry, mem, rfl⟩)) key entry.2
  have ofKey : (addedLines values lines).filter (assigns key) =
      ((values.entries.filter (·.1 == key)).filter fun entry =>
        (firstLine? entry.1 lines).isNone).map fun entry =>
        assignment entry.1 entry.2 := by
    rw [addedLines, missing, List.filter_map, List.filter_filter, List.filter_filter]
    refine congrArg _ (List.filter_congr fun entry mem => ?_)
    rw [Function.comp_apply, assigned entry mem, Bool.and_comm]
  rw [ofKey, OrderedMap.filter_key given, List.filter_singleton]
  cases firstLine? key lines <;> rfl

variable (straight : ∀ value ∈ values.values, Text.IsLine value)

include straight

/-- All that an update writes is on lines of its own. -/
theorem isLine_of_mem_update {text line : String} {gap : List String}
    (gapCases : gap = [] ∨ gap = [""] ∧ missing values (Text.lines text) ≠ [])
    (mem : line ∈ (replaceLines values (Text.lines text)).1 ++ gap ++ addedLines values
      (Text.lines text)) : Text.IsLine line := by
  have isAssignment :
      ∀ key value, values.get? key = some value → Text.IsLine (assignment key value) := by
    intro key value given
    have named := OrderedMap.mem_keys.2 ⟨value, given⟩
    exact isLine_assignment (names key named)
      (straight value (OrderedMap.mem_values.2 ⟨key, given⟩))
  rw [List.mem_append, List.mem_append] at mem
  rcases mem with (renewed | isGap) | added
  · rcases (renews_replaceLines values (Text.lines text)).of_mem renewed with before | ⟨key,
      value, given, rfl⟩
    · exact Text.isLine_of_mem_lines before
    · exact isAssignment key value given
  · rcases gapCases with rfl | ⟨rfl, -⟩
    · exact absurd isGap List.not_mem_nil
    · rw [List.mem_singleton.1 isGap]
      exact Text.isLine_empty
  · obtain ⟨entry, isMissing, rfl⟩ := List.mem_map.1 added
    exact isAssignment entry.1 entry.2 (mem_missing.1 isMissing).1

/-- The lines of an updated text are those that were written. -/
theorem lines_update (filled : values.isEmpty = false) (text : String) :
    ∃ gap, (gap = [] ∨ gap = [""] ∧ missing values (Text.lines text) ≠ []) ∧
      Text.lines (update text values) =
        (replaceLines values (Text.lines text)).1 ++ gap ++ addedLines values
          (Text.lines text) := by
  obtain ⟨gap, gapCases, eq⟩ := update_eq text values
  refine ⟨gap, gapCases, ?_⟩
  rw [eq]
  exact Text.lines_unlines ((renews_replaceLines values (Text.lines text)).filled filled gap)
      fun line mem =>
    isLine_of_mem_update names straight gapCases mem

/-- In an updated text the lines that assign a key are the assignment of its value and, as they
were, those that assigned it again. -/
theorem filter_assigns_update (given : values.get? key = some value) (text : String) :
    (Text.lines (update text values)).filter (assigns key) = assignment key value :: repeated key
      (Text.lines text) := by
  have filled : values.isEmpty = false := by
    refine Bool.eq_false_iff.2 fun empty => ?_
    rw [OrderedMap.isEmpty_iff.1 empty key] at given
    cases given
  obtain ⟨gap, gapCases, eq⟩ := lines_update names straight filled text
  have noGap : gap.filter (assigns key) = [] := by
    rcases gapCases with rfl | ⟨rfl, -⟩ <;> rfl
  rw [eq, List.filter_append, List.filter_append, noGap, List.append_nil,
    filter_assigns_addedLines names given, repeated]
  cases found : (Text.lines text).filter (assigns key) with
  | nil =>
    have absent := filter_assigns_eq_nil.1 found
    have stays := (firstLine?_replaceLines values (Text.lines text) key).trans absent
    rw [if_pos absent, filter_assigns_eq_nil.2 stays]
    rfl
  | cons first others =>
    have present : firstLine? key (Text.lines text) ≠ none := by
      rw [Ne, ← filter_assigns_eq_nil, found]
      exact List.cons_ne_nil first others
    rw [if_neg present, filter_assigns_of_get?_eq_some given found, List.append_nil]
    rfl

/-- In an updated text the first line that assigns a key is its assignment. -/
theorem find?_lines_update (text : String) (given : values.get? key = some value) :
    (Text.lines (update text values)).find? (assigns key) = some (assignment key value) := by
  rw [← List.head?_filter, filter_assigns_update names straight given, List.head?_cons]

end

/-- An update with texts keeps the lines in order. Of the lines that assign a key with a text the
first is set, the keys without a line are set at the end, at most one blank line before them, and
what is read for each key is its text. -/
theorem update_sets (text : String) (texts : OrderedMap String) (filled : texts.isEmpty = false)
    (names : ∀ key ∈ texts.keys, isKey key = true)
    (straight : ∀ given ∈ texts.values, Text.IsLine given) :
    (∃ renewed gap, Renews (ofTexts texts) (Text.lines text) renewed ∧
      (gap = [] ∨ gap = [""] ∧ missing (ofTexts texts) (Text.lines text) ≠ []) ∧
      Text.lines (update text (ofTexts texts)) =
        renewed ++ gap ++ addedLines (ofTexts texts) (Text.lines text)) ∧
    ∀ key given, texts.get? key = some given →
      setting? key (Text.lines (update text (ofTexts texts))) = some given := by
  have sameKeys : (ofTexts texts).keys = texts.keys := by
    simp [ofTexts, OrderedMap.keys, OrderedMap.map]
  have filled : (ofTexts texts).isEmpty = false := by
    rw [OrderedMap.isEmpty, ofTexts, OrderedMap.map, List.isEmpty_map]
    exact filled
  have names : ∀ key ∈ (ofTexts texts).keys, isKey key = true := sameKeys ▸ names
  have straight : ∀ value ∈ (ofTexts texts).values, Text.IsLine value := by
    simp only [ofTexts, OrderedMap.values, OrderedMap.map, List.map_map, List.mem_map]
    rintro _ ⟨entry, mem, rfl⟩
    exact isLine_textValue (straight entry.2 (List.mem_map.2 ⟨entry, mem, rfl⟩))
  constructor
  · obtain ⟨gap, gapCases, eq⟩ := lines_update names straight filled text
    exact ⟨_, gap, renews_replaceLines _ _, gapCases, eq⟩
  · intro key given isGiven
    have value : (ofTexts texts).get? key = some (value (.string given)) := by
      rw [ofTexts, OrderedMap.get?_map, isGiven]
      rfl
    have isName := names key (OrderedMap.mem_keys.2 ⟨_, value⟩)
    rw [setting?, find?_lines_update names straight text value, Option.bind_some,
      assignedValue?_assignment isName, Option.bind_some, unquoted?_value_string]

/-- A name and an address for a project: the first line of the name is set, though it is exported
and other lines follow it, and the address comes last, behind a blank line. -/
theorem update_sets_project :
    let text := "# Project\nexport APP_NAME = Sample\nAPP_KEY=\nAPP_NAME=Other\n"
    let texts := OrderedMap.ofList [("MAIL_FROM", "\"Team\" \\ all"), ("APP_NAME", "Shop")]
    Text.lines (update text (ofTexts texts)) =
        ["# Project", "APP_NAME=Shop", "APP_KEY=", "APP_NAME=Other", "",
          "MAIL_FROM=\"\\\"Team\\\" \\\\ all\""] ∧
      setting? "MAIL_FROM" (Text.lines (update text (ofTexts texts))) = some "\"Team\" \\ all" := by
  refine ⟨by decide +kernel, (update_sets _ _ ?_ ?_ ?_).2 "MAIL_FROM" _ ?_⟩
  · decide +kernel
  · decide +kernel
  · decide +kernel
  · decide +kernel

/-! ## Lines that assign a key again -/

/-- No line contradicts a value: every line that assigns a key is the assignment of its value. -/
def Agrees (values : Values) (lines : List String) : Prop :=
  ∀ key value, values.get? key = some value → ∀ line ∈ lines, assigns key line = true →
    line = assignment key value

/-- Of the lines of an updated text that assign a key with a value, the first is its assignment and
the others are those that assigned the key again before, as they were. So no stale value is left
exactly if each of these was the assignment of the value already. -/
theorem agrees_update_iff (text : String) (values : Values)
    (names : ∀ key ∈ values.keys, isKey key = true)
    (straight : ∀ value ∈ values.values, Text.IsLine value) :
    (∀ key value, values.get? key = some value →
      (Text.lines (update text values)).filter (assigns key) =
        assignment key value :: repeated key (Text.lines text)) ∧
    (Agrees values (Text.lines (update text values)) ↔
      ∀ key value, values.get? key = some value → ∀ line ∈ repeated key (Text.lines text),
      line = assignment key value) := by
  have each :=
    fun key value given => @filter_assigns_update values key value names straight given text
  refine ⟨each, forall₃_congr fun key value given => ?_⟩
  have ofFilter : (∀ line ∈ Text.lines (update text values), assigns key line = true →
      line = assignment key value) ↔
      ∀ line ∈ (Text.lines (update text values)).filter (assigns key),
      line = assignment key value := by
    simp only [List.mem_filter, and_imp]
  rw [ofFilter, each key value given]
  simp

/-- A project whose name is set twice, in different ways. -/
def twiceText : String := "export APP_NAME = Old\nAPP_KEY=\n  APP_NAME=Older\n"

/-- The second name is still there behind the new one. -/
theorem agrees_update_iff_twice :
    let values := OrderedMap.ofList [("APP_NAME", "New"), ("APP_ENV", "local")]
    ((∀ key ∈ values.keys, isKey key = true) ∧ ∀ value ∈ values.values, Text.IsLine value) ∧
      repeated "APP_NAME" (Text.lines twiceText) = ["  APP_NAME=Older"] ∧
      (Text.lines (update twiceText values)).filter (assigns "APP_NAME") =
        ["APP_NAME=New", "  APP_NAME=Older"] := by
  intro values
  have names : ∀ key ∈ values.keys, isKey key = true := by decide +kernel
  have straight : ∀ value ∈ values.values, Text.IsLine value := by decide +kernel
  have again : repeated "APP_NAME" (Text.lines twiceText) = ["  APP_NAME=Older"] := by
    decide +kernel
  refine ⟨⟨names, straight⟩, again, ?_⟩
  rw [(agrees_update_iff twiceText values names straight).1 "APP_NAME" "New"
    (by decide +kernel), again]
  decide +kernel

/-- A value that is set on two lines is set anew on the first only, and the stale one stays behind
it. -/
theorem stale_line_stays :
    ¬ ∀ (text : String) (values : Values), (∀ key ∈ values.keys, isKey key = true) →
    (∀ value ∈ values.values, Text.IsLine value) →
    Agrees values (Text.lines (update text values)) := by
  intro claimed
  have agrees := claimed "APP_NAME=Old\nAPP_NAME=Older\n" (OrderedMap.ofList [("APP_NAME", "New")])
    (by decide +kernel) (by decide +kernel)
  have there : "APP_NAME=Older" ∈ Text.lines
      (update "APP_NAME=Old\nAPP_NAME=Older\n" (OrderedMap.ofList [("APP_NAME", "New")])) := by
    decide +kernel
  exact absurd (agrees "APP_NAME" "New" (by decide +kernel) "APP_NAME=Older" there
    (by decide +kernel)) (by decide +kernel)

end Scaffold.Environment
