import Scaffold.Proofs.Environment.Updating
import Scaffold.Proofs.Outcomes
import Scaffold.Schema.Build

/-!
# Repeated updates

In an updated text every key has a line, so a further update writes the same assignments in the same
places. It leaves the text as it is if each of them is on one line
(`Environment.update_update_of_straight`). A value that holds the end of a line takes more: only the
first of its lines is replaced by the next update, and the others stay behind the new ones, so that
each update adds as many lines (`Environment.length_lines_iterate`).
-/

namespace Scaffold.Environment
set_option autoImplicit false

/-- How many lines a value takes behind the one on which it begins. -/
def overflow (value : String) : Nat := (Text.closedLines value).length - 1

/-- How many lines the values take behind those on which they begin. -/
def surplus (values : Values) : Nat := (values.values.map overflow).sum

/-- Every key has a line that assigns it. -/
def IsSet (values : Values) (lines : List String) : Prop :=
  ∀ key ∈ values.keys, firstLine? key lines ≠ none

section
variable {values : Values} {key : String} {lines : List String}

/-! ## Texts in which every key has a line -/

theorem missing_of_isSet (set : IsSet values lines) : missing values lines = [] := by
  refine List.filter_eq_nil_iff.2 fun entry mem absent => ?_
  exact set entry.1 (List.mem_map.2 ⟨entry, mem, rfl⟩) (Option.isNone_iff_eq_none.1 absent)

/-- Where every key has a line an update replaces lines and adds none. -/
theorem update_of_isSet {text : String} (set : IsSet values (Text.lines text)) :
    update text values = Text.unlines (replaceLines values (Text.lines text)).1 ++ "\n" := by
  have absent := missing_of_isSet set
  obtain ⟨gap, rfl | ⟨-, filled⟩, eq⟩ := update_eq text values
  · rw [eq, addedLines, absent]
    simp
  · exact absurd absent filled

/-- The line of a key and what its value takes behind it. -/
theorem exists_closedLines_assignment (isName : isKey key = true) (value : String) :
    ∃ first others, Text.closedLines (assignment key value) = assignment key first :: others ∧
    others.length = overflow value := by
  obtain ⟨first, others, alone, behind⟩ := Text.exists_closedLines value
  have straight : Text.IsLine (key ++ "=") := Text.isLine_append.2 ⟨isLine_key isName, by decide⟩
  exact ⟨first, others, behind _ straight,
    by rw [overflow, alone, List.length_cons, Nat.add_sub_cancel]⟩

/-- What is written, with all the lines that it takes, is as many lines as before and the surplus of
the values that found a line. -/
theorem length_replaceLines (values : Values) {lines : List String}
    (straight : ∀ line ∈ lines, Text.IsLine line) :
    ((replaceLines values lines).1.flatMap Text.closedLines).length + surplus
      (replaceLines values lines).2 = lines.length + surplus values := by
  induction lines generalizing values with
  | nil => simp [replaceLines.eq_def]
  | cons line rest ih =>
    obtain ⟨first, others⟩ := List.forall_mem_cons.1 straight
    rcases replaceLines_cases values line rest with ⟨key, value, isKey, given, eq⟩ | ⟨-, eq⟩
    · obtain ⟨_, more, written, extra⟩ :=
        exists_closedLines_assignment (isKey_of_assignedKey? isKey) value
      have left := ih (values.erase key) others
      have parts : surplus values = overflow value + surplus (values.erase key) := by
        have perm := (OrderedMap.perm_erase given).map fun entry => overflow entry.2
        simpa [surplus, OrderedMap.values, Function.comp_def] using perm.sum_eq.symm
      simp only [eq, List.flatMap_cons, written, List.length_append, List.length_cons, extra]
      omega
    · have left := ih values others
      simp only [eq, List.flatMap_cons, Text.closedLines_of_isLine first, List.length_append,
        List.length_cons, List.length_nil]
      omega

/-- An update of a text in which every key has a line makes it longer by the surplus of the
values. -/
theorem length_lines_update {text : String} (set : IsSet values (Text.lines text))
    (filled : Text.lines text ≠ []) :
    (Text.lines (update text values)).length = (Text.lines text).length + surplus values := by
  have absent : surplus (replaceLines values (Text.lines text)).2 = 0 := by
    rw [surplus, OrderedMap.values, entries_replaceLines, missing_of_isSet set]
    rfl
  have nonempty : (replaceLines values (Text.lines text)).1 ≠ [] := by
    intro empty
    have length := (renews_replaceLines values (Text.lines text)).length
    rw [empty] at length
    exact filled (List.length_eq_zero_iff.1 length.symm)
  have total :=
    @length_replaceLines values (Text.lines text) fun _ mem => Text.isLine_of_mem_lines mem
  rw [update_of_isSet set, ← Text.closedLines, Text.closedLines_unlines nonempty]
  omega

end

/-! ## Updated texts -/

section
variable {values : Values} (names : ∀ key ∈ values.keys, isKey key = true)

/-- An updated text has a line. -/
theorem lines_update_ne_nil (text : String) (values : Values) :
    Text.lines (update text values) ≠ [] := by
  obtain ⟨gap, -, eq⟩ := update_eq text values
  rw [eq, ← Text.closedLines]
  obtain ⟨first, others, eq, -⟩ := Text.exists_closedLines
    (Text.unlines ((replaceLines values (Text.lines text)).1 ++ gap ++ addedLines values
      (Text.lines text)))
  rw [eq]
  exact List.cons_ne_nil first others

include names

/-- In an updated text every key has a line. -/
theorem isSet_update (text : String) : IsSet values (Text.lines (update text values)) := by
  intro key named absent
  obtain ⟨value, given⟩ := OrderedMap.mem_keys.1 named
  obtain ⟨gap, -, eq⟩ := update_eq text values
  have mem : assignment key value ∈
      (replaceLines values (Text.lines text)).1 ++ gap ++ addedLines values (Text.lines text) := by
    cases first : firstLine? key (Text.lines text) with
    | some place =>
      have here :=
        (renews_replaceLines values (Text.lines text)).assigned key value place given first
      exact List.mem_append_left _ (List.mem_append_left _ (List.mem_of_getElem? here))
    | none =>
      exact List.mem_append_right _
        (List.mem_map.2 ⟨(key, value), mem_missing.2 ⟨given, first⟩, rfl⟩)
  obtain ⟨first, others, written, -⟩ := exists_closedLines_assignment (names key named) value
  have there : assignment key first ∈ Text.lines (update text values) := by
    rw [eq, ← Text.closedLines, Text.closedLines_unlines (List.ne_nil_of_mem mem)]
    exact List.mem_flatMap.2 ⟨_, mem, by rw [written]; exact List.mem_cons_self ..⟩
  have assigned := List.findIdx?_eq_none_iff.1 absent _ there
  rw [assigns_assignment (names key named), beq_self_eq_true] at assigned
  cases assigned

/-- Each update but the first makes the text longer by the surplus of the values. -/
theorem length_lines_iterate (text : String) (runs : Nat) :
    (Text.lines ((update · values)^[runs + 1] text)).length =
      (Text.lines (update text values)).length + runs * surplus values := by
  induction runs with
  | zero => simp
  | succ runs ih =>
    have last : (update · values)^[runs + 1] text = update ((update · values)^[runs] text) values :=
      Function.iterate_succ_apply' ..
    have set := isSet_update names ((update · values)^[runs] text)
    rw [← last] at set
    have filled := lines_update_ne_nil ((update · values)^[runs] text) values
    rw [← last] at filled
    rw [Function.iterate_succ_apply', length_lines_update set filled, ih, Nat.succ_mul]
    omega

/-- A second update of a text leaves it as it is if every value is on one line. -/
theorem update_update_of_straight (straight : ∀ value ∈ values.values, Text.IsLine value)
    (text : String) : update (update text values) values = update text values := by
  -- what is in the place of a key's first line is its assignment already
  have same : (replaceLines values (Text.lines (update text values))).1 = Text.lines
      (update text values) := by
    have renews := renews_replaceLines values (Text.lines (update text values))
    refine List.ext_getElem? fun place => ?_
    by_cases free :
      ∀ key ∈ values.keys, firstLine? key (Text.lines (update text values)) ≠ some place
    · exact renews.kept place free
    · push Not at free
      obtain ⟨key, named, first⟩ := free
      obtain ⟨value, given⟩ := OrderedMap.mem_keys.1 named
      have inside := (List.findIdx?_eq_some_iff_getElem.1 first).1
      have found := find?_of_firstLine? first (List.getElem?_eq_getElem inside)
      rw [find?_lines_update names straight text given] at found
      rw [renews.assigned key value place given first, List.getElem?_eq_getElem inside, found]
  obtain ⟨gap, gapCases, eq⟩ := update_eq text values
  have lines : ∀ pieces : List String, (∀ piece ∈ pieces, Text.IsLine piece) →
      Text.unlines (Text.lines (Text.unlines pieces ++ "\n")) = Text.unlines pieces := by
    intro pieces straight
    cases pieces with
    | nil => rfl
    | cons piece pieces => rw [Text.lines_unlines (List.cons_ne_nil piece pieces) straight]
  rw [update_of_isSet (isSet_update names text), same]
  conv_lhs => rw [eq, lines _ fun line mem => isLine_of_mem_update names straight gapCases mem]
  exact eq.symm

end

/-! ## The values of a schema -/

theorem of_mem_blockValues {keys : List (String × String)} {block : OrderedMap Json}
    {entry : String × String} (names : ∀ pair ∈ keys, isKey pair.2 = true)
    (mem : entry ∈ blockValues keys block) :
    isKey entry.1 = true ∧ ∃ setting, entry.2 = value setting := by
  obtain ⟨pair, isPair, found⟩ := List.mem_filterMap.1 mem
  obtain ⟨setting, -, rfl⟩ := Option.map_eq_some_iff.1 found
  exact ⟨names pair isPair, setting, rfl⟩

/-- Settings give their values under keys. -/
theorem of_mem_ofSettings {settings : Meta} {entry : String × String}
    (mem : entry ∈ ofSettings settings) :
    isKey entry.1 = true ∧ ∃ setting, entry.2 = value setting := by
  have names : isKey "APP_NAME" = true ∧ isKey "SANCTUM_STATEFUL_DOMAINS" = true := by decide
  simp only [ofSettings, List.mem_append, List.mem_cons] at mem
  rcases mem with (((((((rfl | app) | database) | mail) | cache) | queue) | auth) | cors)
  · refine ⟨names.1, ?_⟩
    cases (settings.app.get? "name") with
    | some name => exact ⟨name, rfl⟩
    | none => exact ⟨.string settings.project, rfl⟩
  · exact of_mem_blockValues (by decide) app
  · exact of_mem_blockValues (by decide) database
  · exact of_mem_blockValues (by decide) mail
  · exact of_mem_blockValues (by decide) cache
  · exact of_mem_blockValues (by decide) queue
  · split at auth
    · rw [List.mem_singleton.1 auth]
      exact ⟨names.2, .string _, rfl⟩
    · cases auth
  · exact of_mem_blockValues (by decide) cors

theorem of_mem_ofSchema {s : Schema} {entry : String × String}
    (mem : entry ∈ (ofSchema s).entries) :
    isKey entry.1 = true ∧ ∃ setting, entry.2 = value setting := by
  have given := OrderedMap.mem_of_mem_ofList mem
  cases settings : s.settings with
  | none => simp [settings] at given
  | some settings' => exact of_mem_ofSettings (by simpa [settings] using given)

/-- The values of a schema take no further lines exactly if each is on one line. -/
theorem surplus_ofSchema_eq_zero_iff (s : Schema) :
    surplus (ofSchema s) = 0 ↔ ∀ value ∈ (ofSchema s).values, Text.IsLine value := by
  rw [surplus, List.sum_eq_zero_iff, List.forall_mem_map]
  refine forall₂_congr fun value mem => ⟨fun absent => ?_, fun straight => ?_⟩
  · obtain ⟨entry, isEntry, rfl⟩ := List.mem_map.1 mem
    obtain ⟨-, setting, eq⟩ := of_mem_ofSchema isEntry
    obtain ⟨first, others, lines, -⟩ := Text.exists_closedLines entry.2
    refine Text.isLine_of_closedLines ?_ (eq ▸ getLast?_value setting)
    rw [overflow, lines, List.length_cons, Nat.add_sub_cancel] at absent
    rw [lines, List.length_cons, absent]
  · rw [overflow, Text.closedLines_of_isLine straight]
    rfl

/-- Updating a text with the values of a schema again changes nothing exactly if each value is on
one line, that is, if the values have no surplus; else the text grows by their surplus with each
further update. -/
theorem update_update_iff (s : Schema) (text : String) :
    (update (update text (ofSchema s)) (ofSchema s) = update text (ofSchema s) ↔
      ∀ value ∈ (ofSchema s).values, Text.IsLine value) ∧
    (surplus (ofSchema s) = 0 ↔ ∀ value ∈ (ofSchema s).values, Text.IsLine value) ∧
    ∀ runs, (Text.lines ((update · (ofSchema s))^[runs + 1] text)).length =
      (Text.lines (update text (ofSchema s))).length + runs * surplus (ofSchema s) := by
  have names : ∀ key ∈ (ofSchema s).keys, isKey key = true := by
    intro key named
    obtain ⟨entry, mem, rfl⟩ := List.mem_map.1 named
    exact (of_mem_ofSchema mem).1
  have longer := length_lines_iterate names text
  refine ⟨⟨fun same => (surplus_ofSchema_eq_zero_iff s).1 ?_, fun straight =>
    update_update_of_straight names straight text⟩,
    surplus_ofSchema_eq_zero_iff s, longer⟩
  have again : (update · (ofSchema s))^[1 + 1] text = update text (ofSchema s) := by
    rw [Function.iterate_succ_apply', Function.iterate_one]
    exact same
  have twice := longer 1
  rw [again] at twice
  omega

/-- A project whose application has a name of two lines. -/
def twoLines : Json.Members :=
  [("meta", .object [("app", .object [("name", .string "My\nShop")])]), ("models", .object [])]

/-- The second line of the name is there once more after the second update. -/
theorem update_update_ne :
    ¬ ∀ (document : Json.Members) (s : Schema) (text : String), Schema.build document = .ok s →
    update (update text (ofSchema s)) (ofSchema s) = update text (ofSchema s) := by
  have checked : succeeds (Schema.build twoLines)
      (fun s => update "" (ofSchema s) == "APP_NAME=\"My\nShop\"\n" &&
        update "APP_NAME=\"My\nShop\"\n" (ofSchema s) == "APP_NAME=\"My\nShop\"\nShop\"\n") =
        true := by
    decide +kernel
  obtain ⟨s, built, holds⟩ := succeeds_eq_true.1 checked
  rw [Bool.and_eq_true, beq_iff_eq, beq_iff_eq] at holds
  intro claimed
  have same := claimed twoLines s "" built
  rw [holds.1, holds.2] at same
  exact absurd same (by decide)

end Scaffold.Environment
