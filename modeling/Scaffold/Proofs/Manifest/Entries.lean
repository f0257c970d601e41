import Scaffold.Proofs.Manifest.Listing
import Scaffold.Proofs.Naming.Words
import Scaffold.Proofs.Text.Numerals
import Scaffold.Proofs.Text.Ordering

/-!
# Names of entries in the history

The name of an entry begins with the moment at which it was made, in a text of one length. So
entries stand in the order of what the clock showed, whatever follows in their names:
`Store.entryPath_lt`.
-/

namespace Scaffold
set_option autoImplicit false

namespace Moment

/-- What the calendar and the clock show, from the year to the microsecond. -/
def reading (m : Moment) : List Nat :=
  [m.year, m.month, m.day, m.hour, m.minute, m.second, m.microsecond]

/-- A day of the calendar, in a year of four digits, and a time of day. -/
structure IsRegular (m : Moment) : Prop where
  year : 1000 ≤ m.year ∧ m.year ≤ lastYear
  month : 1 ≤ m.month ∧ m.month ≤ 12
  day : 1 ≤ m.day ∧ m.day ≤ daysIn m.year m.month
  time : m.hour < 24 ∧ m.minute < 60 ∧ m.second < 60 ∧ m.microsecond < 1000000

instance (m : Moment) : Decidable m.IsRegular :=
  decidable_of_iff ((1000 ≤ m.year ∧ m.year ≤ lastYear) ∧ (1 ≤ m.month ∧ m.month ≤ 12) ∧
    (1 ≤ m.day ∧ m.day ≤ daysIn m.year m.month) ∧ m.hour < 24 ∧ m.minute < 60 ∧ m.second < 60 ∧
    m.microsecond < 1000000) ⟨fun ⟨year, month, day, time⟩ => ⟨year, month, day, time⟩,
      fun h => ⟨h.year, h.month, h.day, h.time⟩⟩

variable {m other : Moment}

theorem daysIn_le (year month : Nat) : daysIn year month ≤ 31 := by
  unfold daysIn
  split <;> try split
  all_goals decide

/-- The widths of the numbers in the name of an entry, with what separates them. -/
def dashedShape : List (Nat × List Char) :=
  [(4, ['-']), (2, ['-']), (2, ['_']), (2, ['-']), (2, ['-']), (2, ['-']), (6, [])]

theorem fits_dashedShape (h : m.IsRegular) :
    List.Forall₂ (fun part n => n < 10 ^ part.1) dashedShape m.reading := by
  have year : m.year < 10 ^ 4 := Nat.lt_succ_of_le h.year.2
  have month : m.month < 10 ^ 2 := Nat.lt_of_le_of_lt h.month.2 (by decide)
  have day : m.day < 10 ^ 2 := Nat.lt_of_le_of_lt (h.day.2.trans (daysIn_le _ _)) (by decide)
  obtain ⟨hour, minute, second, microsecond⟩ := h.time
  exact .cons year (.cons month (.cons day
    (.cons (by dsimp only; omega) (.cons (by dsimp only; omega) (.cons (by dsimp only; omega)
      (.cons microsecond .nil))))))

theorem toList_dashed (h : m.IsRegular) : m.dashed.toList = Text.spelled dashedShape m.reading := by
  have year : (toString m.year).toList = Chars.lastDigits 4 m.year :=
    Text.toList_toString h.year.1 (Nat.lt_succ_of_le h.year.2)
  have month : m.month < 10 ^ 2 := Nat.lt_of_le_of_lt h.month.2 (by decide)
  have day : m.day < 10 ^ 2 := Nat.lt_of_le_of_lt (h.day.2.trans (daysIn_le _ _)) (by decide)
  obtain ⟨hour, minute, second, microsecond⟩ := h.time
  have two {n : Nat} (small : n < 10 ^ 2) : (Text.digits 2 n).toList = Chars.lastDigits 2 n :=
    Text.toList_digits (by decide) small
  have six : (Text.digits 6 m.microsecond).toList = Chars.lastDigits 6 m.microsecond :=
    Text.toList_digits (by decide) microsecond
  simp only [dashed, date, time, String.toList_append, year, two month, two day,
    two (Nat.lt_trans hour (by decide : 24 < 10 ^ 2)),
    two (Nat.lt_trans minute (by decide : 60 < 10 ^ 2)),
    two (Nat.lt_trans second (by decide : 60 < 10 ^ 2)), six, reading,
    dashedShape, Text.spelled, List.append_assoc, List.append_nil]
  rfl

/-- Texts that begin with moments stand in the order in which the clock shows these. -/
theorem dashed_append_lt (h : m.IsRegular) (h' : other.IsRegular) (lt : m.reading < other.reading)
    (rest others : String) : m.dashed ++ rest < other.dashed ++ others := by
  rw [Text.lt_iff_toList, String.toList_append, String.toList_append, toList_dashed h,
    toList_dashed h']
  refine Chars.append_lt_append ?_
    (Text.spelled_lt (fits_dashedShape h) (fits_dashedShape h') lt) _ _
  rw [Text.length_spelled rfl, Text.length_spelled rfl]

theorem of_mem_dashed {c : Char} (mem : c ∈ m.dashed.toList) :
    c.isDigit = true ∨ c = '-' ∨ c = '_' := by
  have dash (mem : c ∈ "-".toList) : c.isDigit = true ∨ c = '-' ∨ c = '_' :=
    .inr (.inl (List.mem_singleton.1 mem))
  have digits {width n : Nat} (mem : c ∈ (Text.digits width n).toList) :
    c.isDigit = true ∨ c = '-' ∨ c = '_' :=
    .inl (Text.isDigit_of_mem_digits mem)
  simp only [dashed, date, time, String.toList_append, List.mem_append] at mem
  rcases mem with (((((((year | mem) | month) | mem) | day) | mem) |
    ((((hour | mem) | minute) | mem) | second)) | mem) | microsecond
  · exact .inl (Text.isDigit_of_mem_toString year)
  · exact dash mem
  · exact digits month
  · exact dash mem
  · exact digits day
  · exact .inr (.inr (List.mem_singleton.1 mem))
  · exact digits hour
  · exact dash mem
  · exact digits minute
  · exact dash mem
  · exact digits second
  · exact dash mem
  · exact digits microsecond

end Moment

/-- The digest of a manifest, if it has one, is of letters and digits. -/
def Manifest.HasPlainDigest (m : Manifest) : Prop :=
  ∀ digest ∈ m.schemaHash, ∀ c ∈ digest.toList, c.isAlphanum = true

instance (m : Manifest) : Decidable m.HasPlainDigest :=
  match h : m.schemaHash with
  | none => isTrue (by rw [Manifest.HasPlainDigest, h]; exact nofun)
  | some digest =>
    decidable_of_iff (∀ c ∈ digest.toList, c.isAlphanum = true)
      (by simp [Manifest.HasPlainDigest, h])

namespace Digest

/-- A digest is of hexadecimal digits. -/
theorem isAlphanum_of_mem {bytes : ByteArray} {c : Char} (mem : c ∈ (ofBytes bytes).toList) :
    c.isAlphanum = true := by
  have digits : ∀ d < 16, (Nat.digitChar d).isAlphanum = true := by decide
  simp only [ofBytes, String.toList_ofList, List.mem_flatMap] at mem
  obtain ⟨word, -, i, -, digit⟩ := mem
  have small : word.toNat / Nat.pow 16 (7 - i) % 16 < 16 := Nat.mod_lt _ (by decide)
  rw [Nat.toDigits_of_lt_base small, List.mem_singleton] at digit
  exact digit ▸ digits _ small

end Digest

theorem Manifest.hasPlainDigest_stamp (m : Manifest) (s : Schema) (now : Moment) :
    (m.stamp s now).HasPlainDigest := by
  intro digest stamped c mem
  obtain rfl := Option.some.inj stamped
  exact Digest.isAlphanum_of_mem mem

namespace Store

/-- A name that an entry of a moment can have. -/
def IsEntryName (now : Moment) (name : String) : Prop :=
  ∃ mark : String, name = now.dashed ++ (mark ++ ".json")

variable {store : Store} {now later : Moment} {name other path : String} {m : Manifest}

/-- The name of an entry is one name, unless there is a slash in it. -/
theorem IsEntryName.namesOf_eq (h : IsEntryName now name) (flat : '/' ∉ name.toList) :
    namesOf name = [name] := by
  obtain ⟨mark, rfl⟩ := h
  have letter : 'j' ∈ (now.dashed ++ (mark ++ ".json")).toList := by simp
  have apart {text : String} (absent : 'j' ∉ text.toList) :
      now.dashed ++ (mark ++ ".json") ≠ text := by
    intro same
    exact absent (same ▸ letter)
  exact namesOf_of_not_mem flat (apart (by decide)) (apart (by decide))

/-- With a slash in it, it leads below the directory. -/
theorem IsEntryName.two_le (h : IsEntryName now name) (deep : '/' ∈ name.toList) :
    2 ≤ (namesOf name).length := by
  obtain ⟨mark, rfl⟩ := h
  have inside : '/' ∈ mark.toList := by
    simp only [String.toList_append, List.mem_append] at deep
    rcases deep with moment | isMark | ending
    · rcases Moment.of_mem_dashed moment with digit | dash | gap
      · exact absurd digit (by decide)
      · exact absurd dash (by decide)
      · exact absurd gap (by decide)
    · exact isMark
    · exact absurd ending (by decide)
  obtain ⟨front, back, cut⟩ := List.append_of_mem inside
  have pieces : now.dashed ++ (mark ++ ".json") = (now.dashed ++ String.ofList front) ++ "/" ++
      (String.ofList back ++ ".json") := by
    rw [← String.toList_inj]
    simp [cut]
  have first : namesOf (now.dashed ++ String.ofList front) ≠ [] :=
    namesOf_ne_nil (by simp [Moment.dashed] : '_' ∈ (now.dashed ++ String.ofList front).toList)
      (by decide) (by decide)
  have last : namesOf (String.ofList back ++ ".json") ≠ [] :=
    namesOf_ne_nil (by simp : 'j' ∈ (String.ofList back ++ ".json").toList) (by decide) (by decide)
  rw [pieces, namesOf_append, List.length_append]
  have := List.length_pos_of_ne_nil first
  have := List.length_pos_of_ne_nil last
  omega

/-- Entries stand in the order of what the clock showed. -/
theorem entryPath_lt (h : IsEntryName now name) (h' : IsEntryName later other)
    (regular : now.IsRegular) (regular' : later.IsRegular)
    (lt : now.reading < later.reading) : store.entryPath name < store.entryPath other := by
  obtain ⟨mark, rfl⟩ := h
  obtain ⟨mark', rfl⟩ := h'
  exact (Text.append_lt_append_left _).2 (Moment.dashed_append_lt regular regular' lt _ _)

/-- The paths at which a manifest can enter the history. -/
theorem exists_of_mem_historyPaths {count : Nat}
    (mem : path ∈ store.historyPaths (historyStem m now) count) :
    ∃ name, path = store.entryPath name ∧ IsEntryName now name ∧
    ('/' ∈ name.toList ↔ '/' ∈ (historyStem m now).toList) := by
  obtain ⟨start, stem⟩ : ∃ start : String, historyStem m now = now.dashed ++ start :=
    ⟨_, by rw [historyStem, String.append_assoc]⟩
  rcases List.mem_cons.1 mem with rfl | numbered
  · refine ⟨historyStem m now ++ ".json",
      by simp only [entryPath, String.append_assoc], ⟨start, by rw [stem, String.append_assoc]⟩, ?_⟩
    simp
  · obtain ⟨i, -, rfl⟩ := List.mem_map.1 numbered
    refine ⟨historyStem m now ++ "_" ++ toString (i + 1) ++ ".json",
      by simp only [entryPath, String.append_assoc],
      ⟨start ++ "_" ++ toString (i + 1), by simp only [stem, String.append_assoc]⟩, ?_⟩
    have number : '/' ∉ (toString (i + 1)).toList :=
      fun mem => absurd (Text.isDigit_of_mem_toString mem) (by decide)
    simp only [String.toList_append, List.mem_append, number]
    simp

theorem utf8Len_of_isAlphanum {chars : List Char} (plain : ∀ c ∈ chars, c.isAlphanum = true) :
    String.utf8Len chars = chars.length := by
  induction chars with
  | nil => rfl
  | cons c rest ih =>
    obtain ⟨first, others⟩ := List.forall_mem_cons.1 plain
    have single : c.utf8Size = 1 :=
      eq_of_beq (Naming.of_isAlphanum (·.utf8Size == 1) (by decide) first)
    rw [String.utf8Len_cons, ih others, single, List.length_cons]

/-- The mark of an entry in its name, of a manifest with a plain digest or without one. -/
theorem isAlphanum_of_hasPlainDigest (digest : m.HasPlainDigest) :
    ∀ c ∈ ((m.schemaHash.filter (!·.isEmpty)).getD "00000000").toList, c.isAlphanum = true := by
  cases hash : m.schemaHash.filter (!·.isEmpty) with
  | none => exact (by decide : ∀ c ∈ "00000000".toList, c.isAlphanum = true)
  | some text => exact digest text (Option.filter_eq_some_iff.1 hash).1

/-- With a plain digest, the name of an entry is no longer than that of a new manifest. -/
theorem utf8ByteSize_historyStem_le (digest : m.HasPlainDigest) :
    (historyStem m now).utf8ByteSize ≤ (historyStem {} now).utf8ByteSize := by
  have mark := List.length_take_le 8 ((m.schemaHash.filter (!·.isEmpty)).getD "00000000").toList
  have zeros :
      (String.ofList ((((none : Option String).filter (!·.isEmpty)).getD "00000000").toList.take
        8)).utf8ByteSize = 8 := by
    decide
  rw [← utf8Len_of_isAlphanum fun c mem => isAlphanum_of_hasPlainDigest digest c
    (List.mem_of_mem_take mem), ← String.utf8ByteSize_ofList] at mark
  simp only [historyStem, String.utf8ByteSize_append, zeros]
  exact Nat.add_le_add_left mark _

/-- With a digest of letters and digits, the first of them is one name. -/
theorem isName_historyStem (digest : m.HasPlainDigest) :
    isName (historyStem m now ++ ".json") = true := by
  have clear : ∀ c ∈ (historyStem m now ++ ".json").toList, c ≠ '/' ∧ c ≠ '\x00' := by
    intro c mem
    simp only [historyStem, String.toList_append, List.mem_append, String.toList_ofList] at mem
    rcases mem with ((moment | gap) | letter) | ending
    · rcases Moment.of_mem_dashed moment with digit | rfl | rfl
      · constructor <;> rintro rfl <;> exact absurd digit (by decide)
      · decide
      · decide
    · obtain rfl := List.mem_singleton.1 gap
      decide
    · have plain := isAlphanum_of_hasPlainDigest digest c (List.mem_of_mem_take letter)
      constructor <;> rintro rfl <;> exact absurd plain (by decide)
    · have all : ∀ c ∈ ".json".toList, c ≠ '/' ∧ c ≠ '\x00' := by decide
      exact all c ending
  have apart {text : String} (absent : 'j' ∉ text.toList) :
      historyStem m now ++ ".json" ≠ text := by
    rintro rfl
    simp at absent
  simp only [Scaffold.isName, Bool.and_eq_true, List.all_eq_true, bne_iff_ne, Bool.not_eq_true',
    decide_eq_true_eq]
  refine ⟨⟨⟨?_, apart (by decide)⟩, apart (by decide)⟩, fun c mem => by simpa using clear c mem⟩
  rw [Bool.eq_false_iff, ne_eq, String.isEmpty_iff]
  exact apart (by decide)

theorem not_mem_historyStem (digest : m.HasPlainDigest) : '/' ∉ (historyStem m now).toList := by
  intro mem
  have named := @isName_historyStem now m digest
  simp only [Scaffold.isName, Bool.and_eq_true, List.all_eq_true] at named
  exact absurd (named.2 '/' (by simp [mem])) (by decide)

end Store
end Scaffold
