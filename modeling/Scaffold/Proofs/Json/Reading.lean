import Scaffold.Proofs.Json.Numbers
import Scaffold.Proofs.Json.Strings
import Scaffold.Proofs.Sorting
import Mathlib.Tactic.IntervalCases

/-!
# Reading what was printed

Both texts of a value, the canonical and the indented one, are read as that value, but for two
things: the members of an object come in the order of their names, and a floating-point number is
the one that its text spells. The main statements are `Json.read_indented` and
`Json.read_canonical`.
-/

namespace Scaffold
set_option autoImplicit false

namespace Json

open Decimal (Binary64)

/-- Members put one after another into an object without any. -/
def putAll (members : Members) : Members := members.foldl (fun all m => all.put m.1 m.2) []

mutual

/-- What the text of a value is read as. -/
def reread : Json → Json
  | float value => rereadFloat value
  | array items => .array (rereadItems items)
  | object members => .object (putAll (sortOn (·.1) (rereadMembers members)))
  | value => value

def rereadItems : List Json → List Json
  | [] => []
  | item :: items => reread item :: rereadItems items

def rereadMembers : List (String × Json) → List (String × Json)
  | [] => []
  | (name, value) :: members => (name, reread value) :: rereadMembers members

end

/-- The characters with which words and numbers begin. -/
def scalarStarts : List Char := "-0123456789nftNI".toList

/-- The characters with which values begin. -/
def starts : List Char := '"' :: '[' :: '\x7b' :: scalarStarts

/-- A text is read as a value up to its end, whatever ends it. -/
structure Reads (text : List Char) (v : Json) : Prop where
  start : ∃ c others, text = c :: others ∧ c ∈ starts
  read : ∀ rest, Ends rest → ∀ fuel, 2 * text.length ≤ fuel → ∀ offset,
    ∃ offset', value fuel ⟨offset, text ++ rest⟩ = .ok (v, ⟨offset', rest⟩)

theorem skip_append {blanks : List Char} (all : ∀ c ∈ blanks, isJsonBlank c) {c : Char}
    (stop : isJsonBlank c = false) (offset : Nat) (rest : List Char) :
    (Rest.mk offset (blanks ++ c :: rest)).skip = ⟨offset + blanks.length, c :: rest⟩ := by
  have front : (blanks ++ c :: rest).takeWhile isJsonBlank = blanks := by
    rw [List.takeWhile_append_of_pos all, List.takeWhile_cons_of_neg (by simp [stop]),
      List.append_nil]
  have back : (blanks ++ c :: rest).dropWhile isJsonBlank = c :: rest := by
    rw [List.dropWhile_append_of_pos all, List.dropWhile_cons_of_neg (by simp [stop])]
  simp only [Rest.skip, front, back]

theorem skip_cons {c : Char} (stop : isJsonBlank c = false) (offset : Nat) (rest : List Char) :
    (Rest.mk offset (c :: rest)).skip = ⟨offset, c :: rest⟩ :=
  skip_append (by simp : ∀ c ∈ [], _) stop offset rest

theorem isBlank_lineAt (level : Nat) : ∀ c ∈ lineAt level, isJsonBlank c := by
  intro c mem
  rcases List.mem_cons.1 mem with rfl | mem
  · decide
  · rw [List.eq_of_mem_replicate mem]
    decide

theorem not_isBlank_of_mem_starts {c : Char} (h : c ∈ starts) : isJsonBlank c = false := by
  have all : ∀ c ∈ starts, isJsonBlank c = false := by decide
  exact all c h

theorem Reads.skip {text : List Char} {v : Json} (h : Reads text v) {blanks : List Char}
    (all : ∀ c ∈ blanks, isJsonBlank c) (offset : Nat) (rest : List Char) :
    (Rest.mk offset (blanks ++ (text ++ rest))).skip = ⟨offset + blanks.length, text ++ rest⟩ := by
  obtain ⟨c, others, rfl, mem⟩ := h.start
  exact skip_append all (not_isBlank_of_mem_starts mem) offset (others ++ rest)

theorem Reads.of_scalar {text : List Char} {v : Json}
    (start : ∃ c others, text = c :: others ∧ c ∈ scalarStarts)
    (read : ∀ rest, Ends rest → ∀ offset, ∃ offset', scalar ⟨offset, text ++ rest⟩ =
      .ok (v, ⟨offset', rest⟩)) :
    Reads text v := by
  obtain ⟨c, others, rfl, mem⟩ := start
  refine ⟨⟨c, others, rfl,
    List.mem_cons_of_mem _ (List.mem_cons_of_mem _ (List.mem_cons_of_mem _ mem))⟩, ?_⟩
  intro rest ends fuel enough offset
  have apart : c ≠ '"' ∧ c ≠ '[' ∧ c ≠ '\x7b' := by
    have all : ∀ c ∈ scalarStarts, c ≠ '"' ∧ c ≠ '[' ∧ c ≠ '\x7b' := by decide
    exact all c mem
  obtain ⟨offset', eq⟩ := read rest ends offset
  obtain ⟨fuel, rfl⟩ : ∃ less, fuel = less + 1 := ⟨fuel - 1, by simp at enough; omega⟩
  refine ⟨offset', Eq.trans ?_ eq⟩
  unfold value
  simp only [List.cons_append]
  split <;> simp_all

theorem mem_scalarStarts_of_isDigit {c : Char} (h : c.isDigit) : c ∈ scalarStarts := by
  have range := h
  simp only [Char.isDigit, Bool.and_eq_true, decide_eq_true_eq] at range
  have digit : c = Char.ofNat c.toNat := (Char.ofNat_toNat c).symm
  have low : 48 ≤ c.toNat := range.1
  have high : c.toNat ≤ 57 := range.2
  rw [digit]
  generalize c.toNat = n at low high
  interval_cases n <;> decide

theorem start_number {whole : List Char} (h : IsWhole whole) (negative : Bool) (rest : List Char) :
    ∃ c others, (if negative then ['-'] else []) ++ (whole ++ rest) = c :: others ∧
    c ∈ scalarStarts := by
  obtain ⟨first, others, rfl⟩ := List.exists_cons_of_ne_nil h.ne_nil
  cases negative with
  | true => exact ⟨'-', _, rfl, by decide⟩
  | false =>
    exact ⟨first, _, rfl, mem_scalarStarts_of_isDigit (h.all first (List.mem_cons_self ..))⟩

theorem start_int (value : Int) :
    ∃ c others, (toString value).toList = c :: others ∧ c ∈ scalarStarts := by
  have start := start_number (isWhole_toDigits value.natAbs) (decide (value < 0)) []
  rwa [List.append_nil, ← toList_toString_int] at start

theorem start_float (value : Binary64) :
    ∃ c others, floatLiteral value = c :: others ∧ c ∈ scalarStarts := by
  cases value with
  | nan => exact ⟨'N', _, rfl, by decide⟩
  | infinite negative =>
    cases negative
    · exact ⟨'I', _, rfl, by decide⟩
    · exact ⟨'-', _, rfl, by decide⟩
  | finite negative mantissa exponent =>
    obtain ⟨whole, fraction, power, parts, -, written, -⟩ :=
      Binary64.written_eq negative mantissa exponent
    have start := start_number parts.whole negative
      ((if fraction.isEmpty then [] else '.' :: fraction) ++ powerChars power)
    rwa [← List.append_assoc whole, ← numberChars, ← written] at start

theorem reads_string (ascii : Bool) (text : String) :
    Reads (stringLiteral ascii text) (.string text) := by
  refine ⟨⟨'"', _, rfl, by decide⟩, ?_⟩
  intro rest ends fuel enough offset
  obtain ⟨fuel, rfl⟩ : ∃ less, fuel = less + 1 :=
    ⟨fuel - 1, by simp [stringLiteral] at enough; omega⟩
  obtain ⟨offset', eq⟩ := stringFrom_literal ascii offset (offset + 1) text rest
  refine ⟨offset', ?_⟩
  simp only [stringLiteral, List.cons_append, List.append_assoc, List.nil_append, value, eq]
  rfl

/-- The white space in the text of an array or an object: behind the opening bracket, behind each
comma and before the closing bracket. -/
structure Spacing where
  front : List Char
  gap : List Char
  back : List Char
  blank_front : ∀ c ∈ front, isJsonBlank c
  blank_gap : ∀ c ∈ gap, isJsonBlank c
  blank_back : ∀ c ∈ back, isJsonBlank c
  ends : Ends back

namespace Spacing

/-- No white space at all. -/
def none : Spacing := ⟨[], [], [], by simp, by simp, by simp, by simp [Ends]⟩

/-- Each item on a line of its own, one level below the brackets. -/
def lines (level : Nat) : Spacing where
  front := lineAt (level + 1)
  gap := lineAt (level + 1)
  back := lineAt level
  blank_front := isBlank_lineAt _
  blank_gap := isBlank_lineAt _
  blank_back := isBlank_lineAt _
  ends := by simp [Ends, lineAt]

/-- Texts with commas between them, up to the closing bracket and beyond. -/
def following (s : Spacing) (closing : Char) (texts : List (List Char))
    (rest : List Char) : List Char :=
  (',' :: s.gap).intercalate texts ++ (s.back ++ closing :: rest)

/-- Texts between brackets. -/
def enclose (s : Spacing) (opening closing : Char) (texts : List (List Char)) : List Char :=
  opening :: (s.front ++ s.following closing texts [])

theorem enclose_append (s : Spacing) (opening closing : Char) (texts : List (List Char))
    (rest : List Char) :
    s.enclose opening closing texts ++ rest =
      opening :: (s.front ++ s.following closing texts rest) := by
  simp [enclose, following]

theorem following_singleton (s : Spacing) (closing : Char) (text rest : List Char) :
    s.following closing [text] rest = text ++ (s.back ++ closing :: rest) := by
  rw [following, List.intercalate_singleton]

theorem following_cons_cons (s : Spacing) (closing : Char) (text next : List Char)
    (others : List (List Char)) (rest : List Char) :
    s.following closing (text :: next :: others) rest =
      text ++ ',' :: (s.gap ++ s.following closing (next :: others) rest) := by
  simp [following, List.intercalate_cons_cons]

/-- What follows begins with the first of the texts. -/
theorem following_begins (s : Spacing) (closing : Char) (text : List Char)
    (others : List (List Char)) (rest : List Char) :
    ∃ behind, s.following closing (text :: others) rest = text ++ behind := by
  cases others with
  | nil => exact ⟨_, s.following_singleton closing text rest⟩
  | cons next others => exact ⟨_, s.following_cons_cons closing text next others rest⟩

/-- What stands before the closing bracket is passed over. -/
theorem skip_back (s : Spacing) {closing : Char} (stop : isJsonBlank closing = false) (offset : Nat)
    (rest : List Char) :
    (Rest.mk offset (s.back ++ closing :: rest)).skip = ⟨offset + s.back.length, closing :: rest⟩ :=
  skip_append s.blank_back stop offset rest

/-- So is all that stands between brackets with nothing inside. -/
theorem skip_empty (s : Spacing) {closing : Char} (stop : isJsonBlank closing = false)
    (offset : Nat) (rest : List Char) :
    (Rest.mk offset (s.front ++ s.following closing [] rest)).skip =
      ⟨offset + (s.front ++ s.back).length, closing :: rest⟩ := by
  have inner : ∀ c ∈ s.front ++ s.back, isJsonBlank c := by
    rw [List.forall_mem_append]
    exact ⟨s.blank_front, s.blank_back⟩
  rw [following, List.intercalate_nil, List.nil_append, ← List.append_assoc]
  exact skip_append inner stop offset rest

theorem ends_back (s : Spacing) {closing : Char} (h : closing ∈ ['\n', ',', ']', '\x7d'])
    (rest : List Char) : Ends (s.back ++ closing :: rest) := by
  have ends := s.ends
  cases back : s.back with
  | nil => simpa [Ends] using h
  | cons c others =>
    rw [back] at ends
    exact ends

end Spacing

/-- The items of an array are read up to the closing bracket. -/
theorem items_following (s : Spacing) (rest : List Char) :
    ∀ (entries : List (List Char × Json)), entries ≠ [] → (∀ e ∈ entries, Reads e.1 e.2) →
      ∀ fuel, 2 * ((',' :: s.gap).intercalate (entries.map (·.1))).length + 1 ≤ fuel →
      ∀ offset before, ∃ offset',
      items fuel ⟨offset, s.following ']' (entries.map (·.1)) rest⟩ before =
        .ok (.array (before.reverse ++ entries.map (·.2)), ⟨offset', rest⟩) := by
  intro entries
  induction entries with
  | nil => exact fun filled => absurd rfl filled
  | cons entry others ih =>
    intro _ all fuel enough offset before
    obtain ⟨text, v⟩ := entry
    have reads : Reads text v := all (text, v) (List.mem_cons_self ..)
    obtain ⟨fuel, rfl⟩ : ∃ less, fuel = less + 1 := ⟨fuel - 1, by omega⟩
    cases others with
    | nil =>
      simp only [List.map_cons, List.map_nil, List.intercalate_singleton] at enough
      obtain ⟨after, eq⟩ :=
        reads.read (s.back ++ ']' :: rest) (s.ends_back (by decide) rest) fuel (by omega) offset
      have skipped := s.skip_back (by decide : isJsonBlank ']' = false) after rest
      refine ⟨after + s.back.length + 1, ?_⟩
      simp only [List.map_cons, List.map_nil, s.following_singleton]
      rw [items, eq]
      simp [bind, Except.bind, skipped, Rest.past, pure, Except.pure]
    | cons next others =>
      have onward : ∀ e ∈ next :: others, Reads e.1 e.2 :=
        fun e mem => all e (List.mem_cons_of_mem _ mem)
      simp only [List.map_cons, List.intercalate_cons_cons (l := text), List.length_append,
        List.length_cons] at enough
      obtain ⟨behind, begins⟩ := s.following_begins ']' next.1 (others.map (·.1)) rest
      obtain ⟨after, eq⟩ :=
        reads.read (',' :: (s.gap ++ s.following ']' ((next :: others).map (·.1)) rest))
        (by simp [Ends]) fuel (by omega) offset
      have here := skip_cons (by decide : isJsonBlank ',' = false) after
        (s.gap ++ s.following ']' ((next :: others).map (·.1)) rest)
      have skipped := (onward next (List.mem_cons_self ..)).skip s.blank_gap (after + 1) behind
      rw [← begins] at skipped
      obtain ⟨offset', done⟩ :=
        ih (by simp) onward fuel (by simp only [List.map_cons]; omega) (after + 1 + s.gap.length)
        (v :: before)
      refine ⟨offset', ?_⟩
      simp only [List.map_cons, s.following_cons_cons] at eq here done ⊢
      rw [items, eq]
      simp only [bind, Except.bind, here, Rest.past, List.drop_succ_cons, List.drop_zero,
        skipped, done]
      simp

/-- A member as it is printed: its name, a colon, perhaps a blank, and the text of its value. -/
def memberChars (ascii : Bool) (pad : List Char) (entry : String × List Char × Json) : List Char :=
  stringLiteral ascii entry.1 ++ ':' :: (pad ++ entry.2.1)

/-- White space before a member is passed over. -/
theorem skip_member (ascii : Bool) (pad : List Char) (entry : String × List Char × Json)
    {white : List Char} (all : ∀ c ∈ white, isJsonBlank c) (offset : Nat) (behind : List Char) :
    (Rest.mk offset (white ++ (memberChars ascii pad entry ++ behind))).skip =
      ⟨offset + white.length, memberChars ascii pad entry ++ behind⟩ :=
  skip_append all (by decide : isJsonBlank '"' = false) offset _

section Members

variable {ascii : Bool} {pad : List Char} (blank : ∀ c ∈ pad, isJsonBlank c)
include blank

/-- Reading one member. -/
theorem member_eq (name : String) {text : List Char} {v : Json} (reads : Reads text v)
    {rest : List Char} (ends : Ends rest) {fuel : Nat} (enough : 2 * text.length ≤ fuel)
    (offset : Nat) (before : Members) :
    ∃ after, membersFrom (fuel + 1) ⟨offset, memberChars ascii pad (name, text, v) ++ rest⟩ before =
      match (Rest.mk after rest).skip.chars with
      | '\x7d' :: _ => .ok (.object (before.put name v), (Rest.mk after rest).skip.past 1)
      | ',' :: _ => membersFrom fuel ((Rest.mk after rest).skip.past 1).skip (before.put name v)
      | _ => (Rest.mk after rest).skip.fail .comma := by
  obtain ⟨named, nameRead⟩ :=
    stringFrom_literal ascii offset (offset + 1) name (':' :: (pad ++ (text ++ rest)))
  have colon := skip_cons (by decide : isJsonBlank ':' = false) named (pad ++ (text ++ rest))
  have skipped := reads.skip blank (named + 1) rest
  obtain ⟨after, eq⟩ := reads.read rest ends fuel enough (named + 1 + pad.length)
  refine ⟨after, ?_⟩
  simp only [memberChars, stringLiteral, List.cons_append, List.append_assoc, List.nil_append,
    membersFrom, nameRead]
  simp only [bind, Except.bind, colon, Rest.past, List.drop_succ_cons, List.drop_zero, skipped, eq]
  rfl

/-- The members of an object are read up to the closing brace. -/
theorem members_following (ascii : Bool) (s : Spacing) (rest : List Char) :
    ∀ (entries : List (String × List Char × Json)), entries ≠ [] →
    (∀ e ∈ entries, Reads e.2.1 e.2.2) →
      ∀ fuel, 2 * ((',' :: s.gap).intercalate (entries.map (memberChars ascii pad))).length + 1 ≤
        fuel →
      ∀ offset (before : Members), ∃ offset',
        membersFrom fuel ⟨offset,
          s.following '\x7d' (entries.map (memberChars ascii pad)) rest⟩ before =
          .ok (.object (entries.foldl (fun (all : Members) e => all.put e.1 e.2.2) before),
            ⟨offset', rest⟩) := by
  intro entries
  induction entries with
  | nil => exact fun filled => absurd rfl filled
  | cons entry others ih =>
    intro _ all fuel enough offset before
    obtain ⟨name, text, v⟩ := entry
    have reads : Reads text v := all (name, text, v) (List.mem_cons_self ..)
    have width : text.length ≤ (memberChars ascii pad (name, text, v)).length := by
      simp [memberChars]; omega
    obtain ⟨fuel, rfl⟩ : ∃ less, fuel = less + 1 := ⟨fuel - 1, by omega⟩
    cases others with
    | nil =>
      simp only [List.map_cons, List.map_nil, List.intercalate_singleton] at enough
      obtain ⟨after, eq⟩ := member_eq blank name reads (s.ends_back (by decide : '\x7d' ∈ _) rest)
        (by omega : 2 * text.length ≤ fuel) offset before
      have skipped := s.skip_back (by decide : isJsonBlank '\x7d' = false) after rest
      refine ⟨after + s.back.length + 1, ?_⟩
      simp only [List.map_cons, List.map_nil, s.following_singleton]
      rw [eq, skipped]
      rfl
    | cons next others =>
      have onward : ∀ e ∈ next :: others, Reads e.2.1 e.2.2 :=
        fun e mem => all e (List.mem_cons_of_mem _ mem)
      simp only [List.map_cons,
        List.intercalate_cons_cons (l := memberChars ascii pad (name, text, v)), List.length_append,
        List.length_cons] at enough
      obtain ⟨behind, begins⟩ := s.following_begins '\x7d' (memberChars ascii pad next)
        (others.map (memberChars ascii pad)) rest
      have ends :
          Ends (',' :: (s.gap ++ s.following '\x7d'
            ((next :: others).map (memberChars ascii pad)) rest)) := by
        simp [Ends]
      obtain ⟨after, eq⟩ :=
        member_eq blank name reads ends (by omega : 2 * text.length ≤ fuel) offset before
      have here := skip_cons (by decide : isJsonBlank ',' = false) after
        (s.gap ++ s.following '\x7d' ((next :: others).map (memberChars ascii pad)) rest)
      have skipped := skip_member ascii pad next s.blank_gap (after + 1) behind
      rw [← begins] at skipped
      obtain ⟨offset', done⟩ :=
        ih (by simp) onward fuel (by simp only [List.map_cons]; omega) (after + 1 + s.gap.length)
        (before.put name v)
      refine ⟨offset', ?_⟩
      simp only [List.map_cons, s.following_cons_cons] at eq here done ⊢
      rw [eq, here]
      simp only [Rest.past, List.drop_succ_cons, List.drop_zero, skipped]
      exact done

/-- The text of an object is read when those of its members are. -/
theorem reads_object (ascii : Bool) (s : Spacing) {entries : List (String × List Char × Json)}
    (all : ∀ e ∈ entries, Reads e.2.1 e.2.2) :
    Reads (s.enclose '\x7b' '\x7d' (entries.map (memberChars ascii pad)))
      (.object (putAll (entries.map fun e => (e.1, e.2.2)))) := by
  refine ⟨⟨'\x7b', _, rfl, by decide⟩, ?_⟩
  intro rest ends fuel enough offset
  simp only [Spacing.enclose, Spacing.following, List.length_cons, List.length_append] at enough
  obtain ⟨fuel, rfl⟩ : ∃ less, fuel = less + 1 := ⟨fuel - 1, by omega⟩
  rw [s.enclose_append, putAll, List.foldl_map]
  cases entries with
  | nil =>
    have skipped := s.skip_empty (by decide : isJsonBlank '\x7d' = false) (offset + 1) rest
    refine ⟨offset + 1 + (s.front ++ s.back).length + 1, ?_⟩
    simp only [List.map_nil, value, Rest.past, List.drop_succ_cons, List.drop_zero, skipped,
      List.head?_cons]
    rfl
  | cons entry others =>
    obtain ⟨behind, begins⟩ := s.following_begins '\x7d' (memberChars ascii pad entry)
      (others.map (memberChars ascii pad)) rest
    have skipped := skip_member ascii pad entry s.blank_front (offset + 1) behind
    have noEnd : (memberChars ascii pad entry ++ behind).head? ≠ some '\x7d' := by
      simp [memberChars, stringLiteral]
    rw [← begins] at skipped noEnd
    obtain ⟨offset', done⟩ :=
      members_following blank ascii s rest (entry :: others) (by simp) all fuel (by omega)
      (offset + 1 + s.front.length) []
    refine ⟨offset', ?_⟩
    simp only [List.map_cons] at done ⊢
    simp only [value, Rest.past, List.drop_succ_cons, List.drop_zero, skipped, if_neg noEnd]
    exact done

end Members

/-- The text of an array is read when those of its items are. -/
theorem reads_array (s : Spacing) {entries : List (List Char × Json)}
    (all : ∀ e ∈ entries, Reads e.1 e.2) :
    Reads (s.enclose '[' ']' (entries.map (·.1))) (.array (entries.map (·.2))) := by
  refine ⟨⟨'[', _, rfl, by decide⟩, ?_⟩
  intro rest ends fuel enough offset
  simp only [Spacing.enclose, Spacing.following, List.length_cons, List.length_append] at enough
  obtain ⟨fuel, rfl⟩ : ∃ less, fuel = less + 1 := ⟨fuel - 1, by omega⟩
  rw [s.enclose_append]
  cases entries with
  | nil =>
    have skipped := s.skip_empty (by decide : isJsonBlank ']' = false) (offset + 1) rest
    refine ⟨offset + 1 + (s.front ++ s.back).length + 1, ?_⟩
    simp only [List.map_nil, value, Rest.past, List.drop_succ_cons, List.drop_zero, skipped,
      List.head?_cons]
    rfl
  | cons entry others =>
    obtain ⟨behind, begins⟩ := s.following_begins ']' entry.1 (others.map (·.1)) rest
    have reads := all entry (List.mem_cons_self ..)
    have skipped := reads.skip s.blank_front (offset + 1) behind
    have noEnd : (entry.1 ++ behind).head? ≠ some ']' := by
      obtain ⟨c, cs, eq, mem⟩ := reads.start
      rw [eq]
      rintro ⟨⟩
      exact absurd mem (by decide)
    rw [← begins] at skipped noEnd
    obtain ⟨offset', done⟩ := items_following s rest (entry :: others) (by simp) all fuel (by omega)
      (offset + 1 + s.front.length) []
    refine ⟨offset', ?_⟩
    simp only [List.map_cons] at done ⊢
    simp only [value, Rest.past, List.drop_succ_cons, List.drop_zero, skipped, if_neg noEnd]
    exact done

/-- Texts between brackets stand on lines of their own, unless there are none. -/
theorem bracketed_eq (opening closing : Char) (level : Nat) (texts : List (List Char)) :
    bracketed opening closing level texts =
      (if texts.isEmpty then Spacing.none else .lines level).enclose opening closing texts := by
  cases texts with
  | nil => rfl
  | cons text texts => simp [bracketed, Spacing.lines, Spacing.enclose, Spacing.following]

theorem indentedItems_eq (level : Nat) (items : List Json) :
    indentedItems level items = items.map (indentedChars level) := by
  induction items with
  | nil => rfl
  | cons item items ih => rw [indentedItems, ih, List.map_cons]

theorem canonicalItems_eq (items : List Json) :
    canonicalItems items = items.map canonicalChars := by
  induction items with
  | nil => rfl
  | cons item items ih => rw [canonicalItems, ih, List.map_cons]

theorem rereadItems_eq (items : List Json) : rereadItems items = items.map reread := by
  induction items with
  | nil => rfl
  | cons item items ih => rw [rereadItems, ih, List.map_cons]

theorem indentedMembers_eq (level : Nat) (members : Members) :
    indentedMembers level members =
      members.map fun m =>
        (m.1, stringLiteral true m.1 ++ ':' :: ' ' :: indentedChars level m.2) := by
  induction members with
  | nil => rfl
  | cons m members ih => rw [indentedMembers, ih, List.map_cons]

theorem canonicalMembers_eq (members : Members) :
    canonicalMembers members = members.map fun m =>
      (m.1, stringLiteral false m.1 ++ ':' :: canonicalChars m.2) := by
  induction members with
  | nil => rfl
  | cons m members ih => rw [canonicalMembers, ih, List.map_cons]

theorem rereadMembers_eq (members : Members) :
    rereadMembers members = members.map fun m => (m.1, reread m.2) := by
  induction members with
  | nil => rfl
  | cons m members ih => rw [rereadMembers, ih, List.map_cons]

/-- A way to print values: members in the order of their names, with white space that hangs on the
level of nesting and on whether there is anything between the brackets. -/
structure Prints (ascii : Bool) (pad : List Char) (spacing : Nat → Bool → Spacing)
    (print : Nat → Json → List Char) : Prop where
  blank : ∀ c ∈ pad, isJsonBlank c
  null : ∀ level, print level .null = "null".toList
  bool : ∀ level value, print level (.bool value) = if value then "true".toList else "false".toList
  int : ∀ level value, print level (.int value) = (toString value).toList
  float : ∀ level value, print level (.float value) = floatLiteral value
  string : ∀ level text, print level (.string text) = stringLiteral ascii text
  array : ∀ level items, print level (.array items) =
    (spacing level items.isEmpty).enclose '[' ']' (items.map (print (level + 1)))
  object : ∀ level (members : Members), print level (.object members) =
    (spacing level members.isEmpty).enclose '\x7b' '\x7d'
      ((sortOn (·.1) members).map fun m =>
        memberChars ascii pad (m.1, print (level + 1) m.2, m.2.reread))

namespace Prints

variable {ascii : Bool} {pad : List Char} {spacing : Nat → Bool → Spacing}
  {print : Nat → Json → List Char}

mutual

/-- The text of a value is read as the value that `reread` gives. -/
theorem reads (h : Prints ascii pad spacing print) (level : Nat) :
    ∀ (v : Json), v.isPrintable → Reads (print level v) v.reread
  | .null, _ => by
    rw [h.null]
    exact .of_scalar ⟨'n', _, rfl, by decide⟩ fun rest _ offset => ⟨offset + 4, rfl⟩
  | .bool value, _ => by
    rw [h.bool]
    cases value
    · exact .of_scalar ⟨'f', _, rfl, by decide⟩ fun rest _ offset => ⟨offset + 5, rfl⟩
    · exact .of_scalar ⟨'t', _, rfl, by decide⟩ fun rest _ offset => ⟨offset + 4, rfl⟩
  | .int value, printable => by
    rw [h.int]
    exact .of_scalar (start_int value) fun rest ends offset => scalar_int printable ends offset
  | .float value, _ => by
    rw [h.float]
    exact .of_scalar (start_float value) fun rest ends offset => scalar_float value ends offset
  | .string text, _ => by
    rw [h.string]
    exact reads_string ascii text
  | .array items, printable => by
    have all : ∀ e ∈ items.map fun v => (print (level + 1) v, v.reread), Reads e.1 e.2 :=
      List.forall_mem_map.2 (h.readsItems (level + 1) items printable)
    have reads := reads_array (spacing level items.isEmpty) all
    rw [h.array]
    simpa [reread, rereadItems_eq, Function.comp_def] using reads
  | .object members, printable => by
    have all : ∀ e ∈ (sortOn (·.1) members).map fun m => (m.1, print (level + 1) m.2, m.2.reread),
      Reads e.2.1 e.2.2 :=
      List.forall_mem_map.2 fun m mem => h.readsMembers (level + 1) members printable m
        (mem_sortOn.1 mem)
    have reads := reads_object h.blank ascii (spacing level members.isEmpty) all
    rw [h.object, reread, rereadMembers_eq, sortOn_map (·.1) (by simp)]
    simpa [Function.comp_def] using reads

theorem readsItems (h : Prints ascii pad spacing print) (level : Nat) :
    ∀ (items : List Json), arePrintable items → ∀ v ∈ items, Reads (print level v) v.reread
  | [], _ => by simp
  | item :: items, printable => by
    rw [arePrintable, Bool.and_eq_true] at printable
    have first := h.reads level item printable.1
    have others := h.readsItems level items printable.2
    exact List.forall_mem_cons.2 ⟨first, others⟩

theorem readsMembers (h : Prints ascii pad spacing print) (level : Nat) :
    ∀ (members : List (String × Json)), membersPrintable members →
      ∀ m ∈ members, Reads (print level m.2) m.2.reread
  | [], _ => by simp
  | (name, v) :: members, printable => by
    rw [membersPrintable, Bool.and_eq_true] at printable
    have first := h.reads level v printable.1
    have others := h.readsMembers level members printable.2
    exact List.forall_mem_cons.2 ⟨first, others⟩

end

end Prints

/-- The indented text. -/
theorem prints_indented :
    Prints true [' '] (fun level isEmpty => if isEmpty then .none else .lines level)
      indentedChars where
  blank := by decide
  null _ := rfl
  bool _ _ := rfl
  int _ _ := rfl
  float _ _ := rfl
  string _ _ := rfl
  array level items := by simp [indentedChars, bracketed_eq, indentedItems_eq]
  object level members := by
    rw [indentedChars, bracketed_eq, indentedMembers_eq, sortOn_map (·.1) (by simp)]
    simp [isEmpty_sortOn, Function.comp_def, memberChars]

/-- The canonical text, on one line. -/
theorem prints_canonical : Prints false [] (fun _ _ => .none) (fun _ => canonicalChars) where
  blank := by simp
  null _ := rfl
  bool _ _ := rfl
  int _ _ := rfl
  float _ _ := rfl
  string _ _ := rfl
  array level items := by
    simp [canonicalChars, canonicalItems_eq, Spacing.none, Spacing.enclose, Spacing.following]
  object level members := by
    rw [canonicalChars, canonicalMembers_eq, sortOn_map (·.1) (by simp)]
    simp [Spacing.none, Spacing.enclose, Spacing.following, Function.comp_def, memberChars]

/-- A text with a value and white space behind it is a document. -/
theorem Reads.readChars {text : List Char} {v : Json} (reads : Reads text v) {blanks : List Char}
    (all : ∀ c ∈ blanks, isJsonBlank c) (ends : Ends blanks) :
    readChars (text ++ blanks) = .ok v := by
  obtain ⟨c, others, eq, mem⟩ := reads.start
  have noMark : (text ++ blanks).head? ≠ some '\uFEFF' := by
    rw [eq]
    rintro ⟨⟩
    exact absurd mem (by decide)
  have front := reads.skip (by simp : ∀ c ∈ [], _) 0 blanks
  obtain ⟨offset', done⟩ :=
    reads.read blanks ends (2 * (text ++ blanks).length + 1) (by simp; omega) 0
  have behind : (Rest.mk offset' blanks).skip.chars = [] := by
    have empty : (blanks ++ []).dropWhile _ = [] := List.dropWhile_append_of_pos all
    simpa [Rest.skip] using empty
  rw [Json.readChars, if_neg noMark]
  simp only [List.nil_append, List.length_nil, Nat.add_zero] at front
  simp only [front, done, bind, Except.bind, behind]
  rfl

/-- Reading the indented text. -/
theorem read_indented {j : Json} (printable : j.isPrintable) : read j.indented = .ok j.reread := by
  rw [read, indented, String.toList_ofList]
  exact (prints_indented.reads 0 j printable).readChars (by decide) (by simp [Ends])

/-- Reading the canonical text. -/
theorem read_canonical {j : Json} (printable : j.isPrintable) :
    read j.canonical = .ok j.reread := by
  rw [read, canonical, String.toList_ofList, ← List.append_nil j.canonicalChars]
  exact (prints_canonical.reads 0 j printable).readChars (by simp) (by simp [Ends])

end Json
end Scaffold
