import Mathlib.Data.List.Induction
import Mathlib.Data.List.TakeWhile
import Scaffold.Proofs.Naming.Words
import Scaffold.Proofs.Text.SmallLetters
import Scaffold.Proofs.Text.Trimming

/-!
# Plurals of plurals

A plural is one of the table of irregular nouns, or it ends with a single s. Either way it is taken
for a plural, unless it spells a noun of the table, which has a plural of its own. Four words have
such a plural, `Naming.stems`. So a plural stays as it is, and the name of a table is the name of
its own table, except where the last word is one of these four: `Naming.settled_iff`.
-/

namespace Scaffold.Naming
set_option autoImplicit false

/-- Words that end with no s, but with one spell a noun of the table. -/
def stems : List String := ["axi", "crisi", "analysi", "statu"]

/-- The endings of a plural that are more than an s. -/
def endings : List String := ["es", "ies", "ves"]

variable {word : String} {entry : String × String}

/-! ## The table -/

theorem irregularPlural?_eq_none :
    irregularPlural? word = none ↔ ∀ entry ∈ irregular, entry.1 ≠ word := by
  simp [irregularPlural?, List.find?_eq_none]

/-- What is known of a noun of the table. -/
structure IsNoun (noun : String) : Prop where
  clear : Text.IsClear noun.toList
  notPlural : ¬ "es".toList <:+ noun.toList
  stem : "s".toList <:+ noun.toList → ¬ "ss".toList <:+ noun.toList →
    String.ofList noun.toList.dropLast ∈ stems

/-- What is known of a plural of the table: it is no noun of the table, and spelled with small
letters. -/
structure IsForm (form : String) : Prop where
  filled : form.toList ≠ []
  unlisted : irregularPlural? form = none
  known : (irregularSingular? form).isSome = true
  small : ∀ c ∈ form.toList, c.isLower = true
  capital : ∀ c ∈ form.toList.take 1, Text.smallLetters (Text.upperChar c) = [c]
  letters : ∀ c ∈ (Text.capitalized form).toList, (c.isLower || c.isUpper) = true

/-- What is known of a stem: no rule but the last fits it, and with an s it is a noun of the
table. -/
structure IsStem (stem : String) : Prop where
  small : ∀ c ∈ stem.toList, c.isLower = true
  countable : uncountable.contains stem = false ∧ uncountable.contains (stem ++ "s") = false
  unlisted : irregularPlural? stem = none ∧ irregularSingular? stem = none
  falls : ∀ ending ∈ ["s", "sh", "ch", "x", "z", "ss", "y", "fe", "f", "o"],
    Text.endsWith ending stem = false
  spells : ∃ entry ∈ irregular, irregularPlural? (stem ++ "s") = some entry.2 ∧
    entry.2 ≠ stem ++ "s"

instance (noun : String) : Decidable (IsNoun noun) :=
  decidable_of_iff (_ ∧ _ ∧ _) ⟨fun ⟨a, b, c⟩ => ⟨a, b, c⟩, fun ⟨a, b, c⟩ => ⟨a, b, c⟩⟩

instance (form : String) : Decidable (IsForm form) :=
  decidable_of_iff (_ ∧ _ ∧ _ ∧ _ ∧ _ ∧ _)
    ⟨fun ⟨a, b, c, d, e, f⟩ => ⟨a, b, c, d, e, f⟩, fun ⟨a, b, c, d, e, f⟩ => ⟨a, b, c, d, e, f⟩⟩

instance (stem : String) : Decidable (IsStem stem) :=
  decidable_of_iff (_ ∧ _ ∧ _ ∧ _ ∧ _) ⟨fun ⟨a, b, c, d, e⟩ => ⟨a, b, c, d, e⟩,
    fun ⟨a, b, c, d, e⟩ => ⟨a, b, c, d, e⟩⟩

theorem isNoun_and_isForm : ∀ entry ∈ irregular, IsNoun entry.1 ∧ IsForm entry.2 := by
  decide +kernel

theorem isStem_of_mem : ∀ stem ∈ stems, IsStem stem := by decide +kernel

theorem isLower_and_es : ∀ ending ∈ endings,
    (∀ c ∈ ending.toList, c.isLower = true) ∧ "es".toList <:+ ending.toList := by decide

/-! ## Plurals of words -/

/-- The ways in which a word gets its plural. -/
inductive Inflects (word : String) : String → Prop where
  | stays (same : pluralWord word = word) : Inflects word word
  | listed {entry : String × String}
      (mem : entry ∈ irregular) : Inflects word (likeCase word entry.2)
  | regular {front : List Char} {ending : String} (begins : front <+: word.toList)
      (ends : ending ∈ endings) : Inflects word (String.ofList front ++ ending)
  | letter (other : Text.endsWith "s" (Text.lower word) = false) : Inflects word (word ++ "s")

theorem inflects_reEnd (word : String) (count : Nat) {ending : String} (ends : ending ∈ endings) :
    Inflects word (reEnd word count ending) :=
  .regular (List.take_prefix ..) ends

theorem inflects_es (word : String) : Inflects word (word ++ "es") := by
  have whole : Inflects word (String.ofList word.toList ++ "es") :=
    .regular (List.prefix_refl _) (by decide)
  rwa [String.ofList_toList] at whole

theorem inflects_pluralWord (word : String) : Inflects word (pluralWord word) := by
  generalize same : pluralWord word = form
  have stays (is : word = form) : Inflects word form := is ▸ .stays (same.trans is.symm)
  simp only [pluralWord] at same
  split at same
  · exact stays same
  split at same
  · rename_i plural found
    obtain ⟨entry, first, rfl⟩ := Option.map_eq_some_iff.1 found
    exact same ▸ .listed (List.mem_of_find?_eq_some first)
  split at same
  · exact stays same
  split at same
  · exact stays same
  rename_i single
  split at same
  · exact same ▸ inflects_es word
  rename_i sibilant
  split at same
  · exact same ▸ inflects_reEnd word 1 (by decide)
  split at same
  · exact same ▸ inflects_reEnd word 2 (by decide)
  split at same
  · exact same ▸ inflects_reEnd word 1 (by decide)
  split at same
  · exact same ▸ inflects_es word
  have other : Text.endsWith "s" (Text.lower word) = false := by
    simp only [Bool.or_eq_true, not_or, Bool.and_eq_true, Bool.not_eq_true', not_and,
      Bool.not_eq_false] at single sibilant
    exact Bool.eq_false_iff.2 fun ends => sibilant.2 (single ends)
  exact same ▸ .letter other

/-- A plural that stays: it is no noun of the table, and is a plural of the table or ends with a
single s. -/
theorem pluralWord_of_plural (unlisted : irregularPlural? (Text.lower word) = none)
    (plural : (irregularSingular? (Text.lower word)).isSome = true ∨
      "s".toList <:+ (Text.lower word).toList ∧ ¬ "ss".toList <:+ (Text.lower word).toList) :
      pluralWord word = word := by
  simp only [pluralWord, unlisted]
  split
  · rfl
  split
  · rfl
  · rename_i unlisted'
    obtain ⟨ends, single⟩ := plural.resolve_left unlisted'
    rw [if_pos (by
      simp [Text.endsWith_iff.2 ends, Bool.eq_false_iff.2 (mt Text.endsWith_iff.1 single)])]

theorem lower_likeCase (mem : entry ∈ irregular) (word : String) :
    Text.lower (likeCase word entry.2) = entry.2 := by
  obtain ⟨-, form⟩ := isNoun_and_isForm entry mem
  rw [likeCase]
  split
  · cases chars : entry.2.toList with
    | nil => exact absurd chars form.filled
    | cons c rest =>
      have small := form.small
      rw [chars] at small
      obtain ⟨first, others⟩ := List.forall_mem_cons.1 small
      have capital := form.capital c (by simp [chars])
      rw [← String.toList_inj, chars, Text.toList_lower_eq_iff (Text.isClear_of_isLower small),
        Text.capitalized, chars, String.toList_ofList, Text.smallLetters_append, capital,
        Text.smallLetters_of_isLower others, List.singleton_append]
  · exact Text.lower_eq_self form.small

/-- With its ending a word ends with a single s, and is no noun of the table. -/
theorem pluralWord_regular (front : List Char) {ending : String} (ends : ending ∈ endings) :
    pluralWord (String.ofList front ++ ending) = String.ofList front ++ ending := by
  have es : "es".toList <:+ (Text.lower (String.ofList front ++ ending)).toList := by
    obtain ⟨small, last⟩ := isLower_and_es ending ends
    rw [Text.suffix_lower_iff (by decide), String.toList_append, Text.smallLetters_append,
      Text.smallLetters_of_isLower small]
    exact last.trans (List.suffix_append ..)
  have unlisted : irregularPlural? (Text.lower (String.ofList front ++ ending)) = none :=
    irregularPlural?_eq_none.2 fun entry mem noun =>
      (isNoun_and_isForm entry mem).1.notPlural (noun ▸ es)
  refine pluralWord_of_plural unlisted (.inr ⟨?_, ?_⟩)
  · have last : "s".toList <:+ "es".toList := by decide
    exact last.trans es
  · intro double
    have same := List.suffix_of_suffix_length_le double es (by decide)
    exact absurd same (by decide)

theorem smallLetters_s (word : String) :
    Text.smallLetters (word ++ "s").toList = Text.smallLetters word.toList ++ "s".toList := by
  have small : ∀ c ∈ "s".toList, c.isLower = true := by decide
  rw [String.toList_append, Text.smallLetters_append, Text.smallLetters_of_isLower small]

/-- A word with an s ends with a single one if it had none; the noun of the table that it spells, if
any, makes it a stem. -/
theorem pluralWord_letter (other : Text.endsWith "s" (Text.lower word) = false)
    (apart : Text.lower word ∉ stems) : pluralWord (word ++ "s") = word ++ "s" := by
  have small := smallLetters_s word
  have single : ¬ "ss".toList <:+ (Text.lower (word ++ "s")).toList := by
    rw [Text.suffix_lower_iff (by decide), small]
    rintro ⟨front, whole⟩
    have cut :
        (front ++ "s".toList) ++ "s".toList = Text.smallLetters word.toList ++ "s".toList := by
      rw [List.append_assoc]
      exact whole
    have ends :=
      Text.endsWith_iff.2 ((Text.suffix_lower_iff (by decide)).2
        ⟨front, List.append_cancel_right cut⟩)
    exact Bool.false_ne_true (other.symm.trans ends)
  have ends : "s".toList <:+ (Text.lower (word ++ "s")).toList := by
    rw [Text.suffix_lower_iff (by decide), small]
    exact List.suffix_append ..
  refine pluralWord_of_plural (irregularPlural?_eq_none.2 fun entry mem noun => apart ?_)
    (.inr ⟨ends, single⟩)
  obtain ⟨listed, -⟩ := isNoun_and_isForm entry mem
  have spelled : Text.smallLetters word.toList ++ "s".toList = entry.1.toList := by
    rw [← small, ← Text.toList_lower_eq_iff listed.clear, noun]
  have cut : Text.smallLetters word.toList = entry.1.toList.dropLast := by
    rw [← spelled]
    exact List.dropLast_concat.symm
  have stem : Text.lower word = String.ofList entry.1.toList.dropLast := by
    rw [← String.toList_inj, String.toList_ofList]
    exact (Text.toList_lower_eq_iff fun c isChar =>
      listed.clear c (List.dropLast_subset _ isChar)).2 cut
  rw [stem]
  exact listed.stem (noun ▸ ends) (noun ▸ single)

theorem pluralWord_pluralWord (apart : Text.lower word ∉ stems) :
    pluralWord (pluralWord word) = pluralWord word := by
  have form := inflects_pluralWord word
  generalize pluralWord word = plural at form
  cases form with
  | stays same => exact same
  | @listed entry mem =>
    obtain ⟨-, form⟩ := isNoun_and_isForm entry mem
    have small := lower_likeCase mem word
    exact pluralWord_of_plural (by rw [small]; exact form.unlisted)
      (.inl (by rw [small]; exact form.known))
  | @regular front ending _ ends => exact pluralWord_regular front ends
  | letter other => exact pluralWord_letter other apart

theorem pluralWord_stem (mem : Text.lower word ∈ stems) : pluralWord word = word ++ "s" := by
  obtain ⟨-, ⟨countable, -⟩, ⟨unlisted, notPlural⟩, falls, -⟩ := isStem_of_mem _ mem
  simp only [List.forall_mem_cons, List.not_mem_nil, false_imp_iff, implies_true, and_true] at falls
  simp only [pluralWord, countable, unlisted, notPlural, falls, Bool.false_and, Bool.or_self,
    Option.isSome_none, Bool.false_eq_true, if_false]

/-- The plural of a stem is a noun of the table, of which the plural is another word. -/
theorem pluralWord_pluralWord_ne (mem : Text.lower word ∈ stems) :
    pluralWord (pluralWord word) ≠ pluralWord word := by
  obtain ⟨letters, ⟨-, countable⟩, -, -, entry, listed, found, other⟩ := isStem_of_mem _ mem
  have spelled : Text.lower (word ++ "s") = Text.lower word ++ "s" := by
    have stem := (Text.toList_lower_eq_iff (Text.isClear_of_isLower letters)).1 rfl
    have small : ∀ c ∈ (Text.lower word ++ "s").toList, c.isLower = true := by
      rw [String.toList_append, List.forall_mem_append]
      exact ⟨letters, by decide⟩
    rw [← String.toList_inj, Text.toList_lower_eq_iff (Text.isClear_of_isLower small),
      smallLetters_s, stem, String.toList_append]
  have twice : pluralWord (word ++ "s") = likeCase (word ++ "s") entry.2 := by
    simp only [pluralWord, spelled, countable, found, Bool.false_eq_true, if_false]
  rw [pluralWord_stem mem, twice]
  intro same
  have small := lower_likeCase listed (word ++ "s")
  rw [same, spelled] at small
  exact other small.symm

/-- What a plural is made of: characters of its word and small letters, and capitals if the word has
one. -/
theorem mem_pluralWord {c : Char} (mem : c ∈ (pluralWord word).toList) :
    c ∈ word.toList ∨ c.isLower = true ∨ c.isUpper = true ∧ ∃ d ∈ word.toList,
    d.isUpper = true := by
  have form := inflects_pluralWord word
  generalize pluralWord word = plural at form mem
  cases form with
  | stays => exact .inl mem
  | @listed entry listed =>
    rw [likeCase] at mem
    split at mem
    · rename_i capital
      obtain ⟨d, first, upper⟩ := (Option.any_eq_true _ _).1 capital
      rcases Bool.or_eq_true_iff.1
        ((isNoun_and_isForm entry listed).2.letters c mem) with small | large
      · exact .inr (.inl small)
      · exact .inr (.inr ⟨large, d, List.mem_of_head? first, upper⟩)
    · exact .inr (.inl ((isNoun_and_isForm entry listed).2.small c mem))
  | regular begins ends =>
    rw [String.toList_append, String.toList_ofList] at mem
    rcases List.mem_append.1 mem with front | last
    · exact .inl (begins.subset front)
    · exact .inr (.inl ((isLower_and_es _ ends).1 c last))
  | letter =>
    rw [String.toList_append] at mem
    rcases List.mem_append.1 mem with front | last
    · exact .inl front
    · have small : ∀ c ∈ "s".toList, c.isLower = true := by decide
      exact .inr (.inl (small c last))

theorem pluralWord_ne_empty (nonempty : word ≠ "") : pluralWord word ≠ "" := by
  have form := inflects_pluralWord word
  generalize pluralWord word = plural at form
  cases form with
  | stays => exact nonempty
  | @listed entry listed =>
    intro absent
    have small := lower_likeCase listed word
    rw [absent] at small
    exact (isNoun_and_isForm entry listed).2.filled (small ▸ rfl)
  | regular _ ends =>
    intro absent
    have es := (isLower_and_es _ ends).2
    rw [(String.append_eq_empty_iff.1 absent).2] at es
    exact absurd es (by decide)
  | letter => exact fun absent => absurd (String.append_eq_empty_iff.1 absent).2 (by decide)

/-! ## Plurals of names -/

/-- What stands between the words of a name. -/
def isSeparator (c : Char) : Bool := c = '-' || c = '_'

theorem isSeparator_of_isAlphanum {c : Char} (h : c.isAlphanum = true) : isSeparator c = false := by
  refine Bool.eq_false_iff.2 fun separates => ?_
  simp only [isSeparator, Bool.or_eq_true, decide_eq_true_eq] at separates
  rcases separates with rfl | rfl <;> exact absurd h (by decide)

/-- A name is its last word behind a front on one line that is empty or ends with a separator. -/
structure IsLastWord (front word name : String) : Prop where
  whole : name = front ++ word
  filled : word ≠ ""
  unbroken : ∀ c ∈ word.toList, isSeparator c = false
  apart : ∀ c ∈ front.toList.getLast?, isSeparator c = true
  straight : '\n' ∉ front.toList

section
variable {front name : String}

theorem onLastWord_eq_ite (inflect : String → String) (name : String) : onLastWord inflect name =
    if (name.toList.reverse.takeWhile (!isSeparator ·)).reverse.isEmpty ||
        (name.toList.reverse.dropWhile (!isSeparator ·)).reverse.contains '\n' then name
    else String.ofList (name.toList.reverse.dropWhile (!isSeparator ·)).reverse ++
      inflect (String.ofList (name.toList.reverse.takeWhile (!isSeparator ·)).reverse) := rfl

theorem IsLastWord.onLastWord_eq (h : IsLastWord front word name) (inflect : String → String) :
    onLastWord inflect name = front ++ inflect word := by
  have each : ∀ c ∈ word.toList.reverse, (!isSeparator c) = true := fun c mem => by
    simp [h.unbroken c (List.mem_reverse.1 mem)]
  have stop : ∀ c ∈ front.toList.reverse.head?, (!isSeparator c) = false := fun c mem => by
    rw [List.head?_reverse] at mem
    simp [h.apart c mem]
  have absent : front.toList.reverse.takeWhile (!isSeparator ·) = [] ∧
      front.toList.reverse.dropWhile (!isSeparator ·) = front.toList.reverse := by
    cases chars : front.toList.reverse with
    | nil => exact ⟨rfl, rfl⟩
    | cons c rest => simp [stop c (by rw [chars]; rfl)]
  have reversed : name.toList.reverse = word.toList.reverse ++ front.toList.reverse := by
    rw [h.whole, String.toList_append, List.reverse_append]
  have last : name.toList.reverse.takeWhile (!isSeparator ·) = word.toList.reverse := by
    rw [reversed, List.takeWhile_append_of_pos each, absent.1, List.append_nil]
  have begins : name.toList.reverse.dropWhile (!isSeparator ·) = front.toList.reverse := by
    rw [reversed, List.dropWhile_append_of_pos each, absent.2]
  have filled : word.toList.isEmpty = false := by simpa using h.filled
  rw [onLastWord_eq_ite, last, begins, List.reverse_reverse, List.reverse_reverse,
    String.ofList_toList, String.ofList_toList, if_neg (by simp [filled, h.straight])]

/-- A name has a last word, or no word of it is inflected. -/
theorem onLastWord_cases (name : String) :
    (∃ front word, IsLastWord front word name) ∨ ∀ inflect, onLastWord inflect name = name := by
  by_cases stays : ((name.toList.reverse.takeWhile (!isSeparator ·)).reverse.isEmpty ||
      (name.toList.reverse.dropWhile (!isSeparator ·)).reverse.contains '\n') = true
  · exact .inr fun inflect => by rw [onLastWord_eq_ite, if_pos stays]
  · simp only [Bool.or_eq_true, not_or, List.isEmpty_iff, List.contains_iff_mem] at stays
    refine .inl ⟨String.ofList (name.toList.reverse.dropWhile (!isSeparator ·)).reverse,
      String.ofList (name.toList.reverse.takeWhile (!isSeparator ·)).reverse, ?_, ?_, ?_, ?_, ?_⟩
    · rw [← String.ofList_append, ← List.reverse_append, List.takeWhile_append_dropWhile,
        List.reverse_reverse, String.ofList_toList]
    · simpa using stays.1
    · intro c mem
      rw [String.toList_ofList, List.mem_reverse] at mem
      simpa using List.mem_takeWhile_imp mem
    · intro c mem
      rw [String.toList_ofList, List.getLast?_reverse] at mem
      simpa using Chars.of_mem_head?_dropWhile mem
    · rw [String.toList_ofList]
      exact stays.2

theorem IsLastWord.plural (h : IsLastWord front word name) :
    IsLastWord front (pluralWord word) (plural name) where
  whole := h.onLastWord_eq pluralWord
  filled := pluralWord_ne_empty h.filled
  unbroken c mem := by
    rcases mem_pluralWord mem with old | small | ⟨large, -⟩
    · exact h.unbroken c old
    · exact isSeparator_of_isAlphanum (isAlphanum_of_isAlpha (Bool.or_eq_true_iff.2 (.inr small)))
    · exact isSeparator_of_isAlphanum (isAlphanum_of_isAlpha (Bool.or_eq_true_iff.2 (.inl large)))
  apart := h.apart
  straight := h.straight

/-- A plural of a name stays as it is, except where the last word of the name is a stem. -/
theorem plural_plural_iff (name : String) :
    plural (plural name) = plural name ↔ ∀ front word, IsLastWord front word name →
    Text.lower word ∉ stems := by
  have twice {front word : String} (last : IsLastWord front word name) :
      plural (plural name) = plural name ↔ pluralWord (pluralWord word) = pluralWord word := by
    rw [plural, last.plural.onLastWord_eq pluralWord, last.plural.whole, ← String.toList_inj,
      ← String.toList_inj, String.toList_append, String.toList_append, List.append_cancel_left_eq]
  constructor
  · intro same front word last mem
    exact pluralWord_pluralWord_ne mem ((twice last).1 same)
  · intro apart
    rcases onLastWord_cases name with ⟨front, word, last⟩ | absent
    · exact (twice last).2 (pluralWord_pluralWord (apart front word last))
    · rw [plural, plural, absent, absent]

/-! ## Names of tables -/

theorem intercalate_concat (words : List (List Char)) (word : List Char) :
    ['_'].intercalate (words ++ [word]) = words.flatMap (· ++ ['_']) ++ word := by
  induction words with
  | nil => exact List.intercalate_singleton
  | cons first words ih =>
    rw [List.flatMap_cons, List.append_assoc, ← ih]
    cases words <;> simp [List.intercalate_cons_cons]

/-- The last of several small words is the last word of a name. -/
theorem isLastWord_concat {words : List (List Char)} {last : List Char}
    (each : ∀ word ∈ words ++ [last], IsRun isSmall word) :
    IsLastWord (String.ofList (words.flatMap (· ++ ['_']))) (String.ofList last)
      (String.ofList (['_'].intercalate (words ++ [last]))) where
  whole := by rw [intercalate_concat, String.ofList_append]
  filled := by
    have filled := (each last (by simp)).filled
    simpa using filled
  unbroken c mem := by
    rw [String.toList_ofList] at mem
    exact isSeparator_of_isAlphanum (isAlphanum_of_isSmall ((each last (by simp)).each c mem))
  apart c mem := by
    rw [String.toList_ofList] at mem
    cases words using List.reverseRecOn with
    | nil => cases mem
    | append_singleton words word =>
      rw [List.flatMap_append, List.flatMap_singleton, ← List.append_assoc,
        List.getLast?_concat] at mem
      cases mem
      decide
  straight mem := by
    rw [String.toList_ofList] at mem
    obtain ⟨word, isWord, mem⟩ := List.mem_flatMap.1 mem
    rcases List.mem_append.1 mem with mem | mem
    · exact absurd ((each word (List.mem_append_left _ isWord)).each _ mem) (by decide)
    · exact absurd mem (by decide)

/-- The plural of a name of small words is one. -/
theorem IsSnake.plural (h : IsSnake name) : IsSnake (plural name) := by
  obtain ⟨words, each, whole⟩ := h
  obtain rfl : name = String.ofList (['_'].intercalate words) := by
    rw [← whole, String.ofList_toList]
  cases words using List.reverseRecOn with
  | nil => exact ⟨[], by simp, rfl⟩
  | append_singleton words last =>
    have small : ∀ c ∈ (String.ofList last).toList, isSmall c = true := by
      rw [String.toList_ofList]
      exact (each last (by simp)).each
    refine ⟨words ++ [(pluralWord (String.ofList last)).toList], ?_, ?_⟩
    · rw [List.forall_mem_append, List.forall_mem_singleton]
      refine ⟨fun word mem => each word (List.mem_append_left _ mem), ?_, fun c mem => ?_⟩
      · simpa using pluralWord_ne_empty (isLastWord_concat each).filled
      · rcases mem_pluralWord mem with old | letter | ⟨-, d, old, large⟩
        · exact small c old
        · simp [isSmall, letter]
        · exact absurd large (Bool.eq_false_iff.1 (isUpper_eq_false (small d old)))
    · rw [Naming.plural, (isLastWord_concat each).onLastWord_eq, intercalate_concat,
        String.toList_append, String.toList_ofList]

theorem isSnake_table (name : String) : IsSnake (table name) := (isSnake_snake name).plural

/-- What a name becomes with underscores is words of small letters and digits, and stays as it is.
Its plural, and so the name of its table, stays as it is too, except where the last word is a
stem. -/
theorem settled_iff (name : String) :
    IsSnake (snake name) ∧ snake (snake name) = snake name ∧
    (plural (plural name) = plural name ↔
      ∀ front word, IsLastWord front word name → Text.lower word ∉ stems) ∧
    (table (table name) = table name ↔
      ∀ front word, IsLastWord front word (snake name) → Text.lower word ∉ stems) := by
  have twice : table (table name) = plural (plural (snake name)) := by
    rw [table, (isSnake_table name).snake_eq, table]
  refine ⟨isSnake_snake name, (isSnake_snake name).snake_eq, plural_plural_iff name, ?_⟩
  rw [twice, table, plural_plural_iff]

/-- The plural of one of the four words is a noun with another plural. -/
theorem axi_unsettled :
    plural (plural "axi") ≠ plural "axi" ∧ table (table "Axi") ≠ table "Axi" := by decide +kernel

end

end Scaffold.Naming
