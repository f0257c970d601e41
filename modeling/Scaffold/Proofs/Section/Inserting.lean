import Scaffold.Proofs.Php.Lists
import Scaffold.Proofs.Section.Merging
import Scaffold.Render.Seeder

/-!
# Sections in a list

The section of the seeders belongs into the list of a call. Behind the bracket that opens the list
it comes on the next line, wherever the list ends: it lies in the list if a line ends there, and
else behind it (`Section.merge_seeders_iff`).
-/

namespace Scaffold
set_option autoImplicit false

open Chars (AreBlanks)

/-- The first occurrence of a character cuts a text in one way. -/
theorem Chars.cut_inj {c : Char} {front front' back back' : List Char} (clear : c ∉ front)
    (clear' : c ∉ front') (same : front ++ c :: back = front' ++ c :: back') :
    front = front' ∧ back = back' := by
  rcases List.append_eq_append_iff.1 same with ⟨between, rfl, rest⟩ | ⟨between, rfl, rest⟩
  · cases between with
    | nil => exact ⟨(List.append_nil _).symm, (List.cons.inj rest).2⟩
    | cons first more => exact absurd (by rw [(List.cons.inj rest).1]; simp) clear'
  · cases between with
    | nil => exact ⟨List.append_nil _, (List.cons.inj rest).2.symm⟩
    | cons first more => exact absurd (by rw [(List.cons.inj rest).1]; simp) clear

theorem Render.areBlanks_seederIndent : AreBlanks seederIndent.toList := by
  intro c mem
  rw [seederIndent, Text.repeated, String.toList_ofList] at mem
  exact .inl (List.eq_of_mem_replicate mem)

namespace Section

/-- The lines were put into a text between two of its places. -/
def IsPutBetween (first last : Nat) (lines text outcome : String) : Prop :=
  ∃ place, first ≤ place ∧ place ≤ last ∧
    outcome.toList = text.toList.take place ++ lines.toList ++ '\n' :: text.toList.drop place

variable {markers : Markers} {text : String} {front rest items tail : List Char} {indent : String}

/-- Behind an anchor inside a line, the rest of the line stays, and the section comes on the next
one. -/
theorem exists_line_insertAfter (markers : Markers) (indent : String)
    (text_eq : text.toList = front ++ rest) (opens : front.getLast? ≠ some '\n') :
    ∃ line, '\n' ∉ line ∧
      ((∃ after, rest = line ++ '\n' :: after ∧
        ∀ body, (insertAfter markers body indent front.length text).toList =
          front ++ line ++ '\n' :: ((wrap markers body indent).toList ++ '\n' :: after)) ∨
        rest = line ∧ ∀ body, (insertAfter markers body indent front.length text).toList =
          front ++ line ++ '\n' :: ((wrap markers body indent).toList ++ ['\n'])) := by
  rcases insertAfter_cases markers indent front.length text with ⟨line, after, cut,
    ⟨within, straight⟩, eq⟩ | ⟨straight, eq⟩
  · have long : front.length ≤ line.length := by
      refine Nat.le_of_lt_succ (Nat.lt_of_le_of_ne within fun whole => opens ?_)
      have ends : front = line ++ ['\n'] :=
        (List.append_inj (text_eq.symm.trans cut) (by simpa using whole)).1
      rw [ends, List.getLast?_concat]
    obtain ⟨back, rfl⟩ : front <+: line := by
      refine List.prefix_of_prefix_length_le ⟨rest, text_eq.symm⟩ ⟨['\n'] ++ after, ?_⟩ long
      rw [cut, List.append_assoc]
    rw [List.drop_left] at straight
    refine ⟨back, straight, .inl ⟨after, ?_, fun body => ?_⟩⟩
    · refine (List.append_right_inj front).1 ?_
      rw [← text_eq, cut]
      simp
    · rw [eq, toList_append_section]
      simp
  · rw [text_eq, List.drop_left] at straight
    refine ⟨rest, straight, .inr ⟨rfl, fun body => ?_⟩⟩
    rw [eq, toList_append_section, text_eq]
    simp

/-- The line of the anchor goes on behind a bracket if no line ends before it. -/
theorem exists_line_eq {line after : List Char} (absent : '\n' ∉ items) (straight : '\n' ∉ line)
    (cut : items ++ ']' :: tail = line ++ '\n' :: after) : ∃ back, line = items ++ ']' :: back := by
  have feed : '\n' ∈ items ++ ']' :: tail := by
    rw [cut]
    simp
  have later : '\n' ∈ tail := by simpa [absent] using feed
  obtain ⟨back, rest, rfl, backStraight⟩ := List.eq_append_cons_of_mem later
  rw [← List.cons_append, ← List.append_assoc] at cut
  have upTo : '\n' ∉ items ++ ']' :: back := by simp [absent, backStraight]
  exact ⟨back, (Chars.cut_inj upTo straight cut).1.symm⟩

/-- Where no line ends before a bracket, the bracket stays before the section. -/
theorem exists_bracket_insertAfter (markers : Markers) (indent : String)
    (text_eq : text.toList = front ++ (items ++ ']' :: tail))
    (opens : front.getLast? ≠ some '\n') (absent : '\n' ∉ items) (body : List String) : ∃ back more,
      '\n' ∉ items ++ ']' :: back ∧
      (insertAfter markers body indent front.length text).toList = front ++
        (items ++ ']' :: back ++ '\n' :: more) := by
  obtain ⟨line, straight, ⟨after, cut, eq⟩ | ⟨rfl, eq⟩⟩ :=
    exists_line_insertAfter markers indent text_eq opens
  · obtain ⟨back, rfl⟩ := exists_line_eq absent straight cut
    exact ⟨back, _, straight, by rw [eq, List.append_assoc]⟩
  · exact ⟨tail, _, straight, by rw [eq, List.append_assoc]⟩

/-- A section that is put in behind an anchor comes before a bracket if a line ends before it, and
only then. -/
theorem isPutBetween_insertAfter_iff (blank : AreBlanks indent.toList)
    (straight : '\n' ∉ markers.opening.toList) (solid : ']' ∉ markers.opening.toList)
    (text_eq : text.toList = front ++ (items ++ ']' :: tail))
    (opens : front.getLast? ≠ some '\n') (body : List String) :
    IsPutBetween front.length (front ++ items).length (wrap markers body indent) text
      (insertAfter markers body indent front.length text) ↔ '\n' ∈ items := by
  constructor
  · rintro ⟨place, first, last, eq⟩
    by_contra unbroken
    obtain ⟨back, more, lineStraight, isOutcome⟩ :=
      exists_bracket_insertAfter markers indent text_eq opens unbroken body
    -- then the line of the bracket would be the one of the opening marker
    obtain ⟨length, rfl⟩ := Nat.exists_eq_add_of_le first
    rw [List.length_append, Nat.add_le_add_iff_left] at last
    obtain ⟨inner, outer, rfl, rfl⟩ :
      ∃ inner outer, items = inner ++ outer ∧ inner.length = length :=
      ⟨items.take length, items.drop length, (List.take_append_drop ..).symm,
        List.length_take_of_le last⟩
    have upTo : text.toList.take (front.length + inner.length) = front ++ inner := by
      rw [text_eq, List.append_assoc, List.take_length_add_append, List.take_left]
    have markerStraight : '\n' ∉ inner ++ (indent.toList ++ markers.opening.toList) := by
      simp only [List.mem_append, not_or]
      exact ⟨fun mem => unbroken (List.mem_append_left _ mem), fun mem =>
        by simpa using blank _ mem, straight⟩
    have same : inner ++ outer ++ ']' :: back ++ '\n' :: more =
        inner ++ (indent.toList ++ markers.opening.toList) ++ '\n' :: (inside body indent ++
          (indent.toList ++ markers.closing.toList ++ '\n' :: text.toList.drop
            (front.length + inner.length))) := by
      refine (List.append_right_inj front).1 ?_
      rw [isOutcome, upTo, toList_wrap] at eq
      simpa only [List.append_assoc, List.cons_append, List.nil_append] using eq
    have lines := (Chars.cut_inj lineStraight markerStraight same).1
    rw [List.append_assoc, List.append_cancel_left_eq] at lines
    have here : ']' ∈ indent.toList ++ markers.opening.toList := by
      rw [← lines]
      simp
    rcases List.mem_append.1 here with mem | mem
    · simpa using blank _ mem
    · exact solid mem
  · intro feed
    obtain ⟨inner, outer, rfl, innerStraight⟩ := List.eq_append_cons_of_mem feed
    obtain ⟨line, lineStraight, ⟨after, cut, eq⟩ | ⟨rfl, -⟩⟩ :=
      exists_line_insertAfter markers indent text_eq opens
    · rw [List.append_assoc, List.cons_append] at cut
      obtain ⟨rfl, rfl⟩ := Chars.cut_inj innerStraight lineStraight cut
      have cut : text.toList = front ++ inner ++ ['\n'] ++ (outer ++ ']' :: tail) := by
        rw [text_eq]
        simp
      refine ⟨(front ++ inner ++ ['\n']).length, by simp, by simp, ?_⟩
      rw [eq, cut, List.take_left, List.drop_left]
      simp
    · exact absurd (List.mem_append_left _ feed) lineStraight

/-- An anchor ends at its place. -/
theorem exists_cut_of_endOf? {anchor : String} {place : Nat} (h : endOf? anchor text = some place) :
    ∃ before rest, text.toList = before ++ anchor.toList ++ rest ∧
    (before ++ anchor.toList).length = place := by
  obtain ⟨start, found, rfl⟩ := Option.map_eq_some_iff.1 h
  obtain ⟨inside, ⟨rest, here⟩, -⟩ := Chars.find?_eq_some.1 found
  refine ⟨text.toList.take start, rest, ?_, ?_⟩
  · rw [List.append_assoc, here, List.take_append_drop]
  · rw [List.length_append, List.length_take_of_le inside, String.length_toList]

/-- Where there is no section, the one of the seeders is put in behind the bracket that the anchor
ends with. It lies before the bracket that closes the list, or before any other bracket, if a line
ends before that, and only then. A list that it does not lie in ends where it ended. -/
theorem merge_seeders_iff {text indent : String} {opened : Nat}
    (missing : find? .seeders text = none) (isAnchor : endOf? seederAnchor text = some opened)
    (blank : AreBlanks indent.toList) (body : List String) :
    ∃ outcome, merge .seeders body (some seederAnchor) indent text = (.inserted, outcome) ∧
      (∀ closing, opened ≤ closing → text.toList[closing]? = some ']' →
        (IsPutBetween opened closing (wrap .seeders body indent) text outcome ↔
          '\n' ∈ (text.toList.take closing).drop opened)) ∧
      ∀ closing, Php.closingFrom? opened text.toList = some closing →
        (IsPutBetween opened closing (wrap .seeders body indent) text outcome ↔
          '\n' ∈ (text.toList.take closing).drop opened) ∧
        ('\n' ∉ (text.toList.take closing).drop opened →
          Php.closingFrom? opened outcome.toList = some closing) := by
  obtain ⟨before, rest, text_eq, rfl⟩ := exists_cut_of_endOf? isAnchor
  generalize isFront : before ++ seederAnchor.toList = front at *
  have opens : front.getLast? ≠ some '\n' := by
    have last : seederAnchor.toList.getLast? = some '[' := by decide
    rw [← isFront, List.getLast?_append, last, Option.some_or]
    decide
  have inserts : merge .seeders body (some seederAnchor) indent text =
      (.inserted, insertAfter .seeders body indent front.length text) := by
    have absent : replace? .seeders body text = none := by
      rw [find?] at missing
      simp [replace?, missing]
    simp only [merge, mergeAfter, absent, Option.bind_some, isAnchor]
  have before_iff : ∀ items tail, rest = items ++ ']' :: tail →
      (IsPutBetween front.length (front ++ items).length (wrap .seeders body indent) text
        (insertAfter .seeders body indent front.length text) ↔
          '\n' ∈ (text.toList.take (front ++ items).length).drop front.length) := by
    rintro items tail rfl
    rw [text_eq, ← List.append_assoc, List.take_left, List.drop_left]
    exact isPutBetween_insertAfter_iff blank (by decide) (by decide) text_eq opens body
  refine ⟨_, inserts, fun closing later bracket => ?_, fun closing closes => ?_⟩
  · obtain ⟨length, rfl⟩ := Nat.exists_eq_add_of_le later
    rw [text_eq, List.getElem?_append_right later, Nat.add_sub_cancel_left] at bracket
    obtain ⟨short, is⟩ := List.getElem?_eq_some_iff.1 bracket
    have cut : rest = rest.take length ++ ']' :: rest.drop (length + 1) := by
      rw [← is, List.getElem_cons_drop, List.take_append_drop]
    have := before_iff _ _ cut
    rwa [List.length_append, List.length_take_of_le (Nat.le_of_lt short)] at this
  · rw [text_eq] at closes
    obtain ⟨items, tail, rfl, rfl, stays⟩ := Php.exists_of_closingFrom? closes
    refine ⟨before_iff items tail rfl, fun absent => ?_⟩
    rw [text_eq, ← List.append_assoc, List.take_left, List.drop_left] at absent
    obtain ⟨back, more, -, eq⟩ :=
      exists_bracket_insertAfter .seeders indent text_eq opens absent body
    rw [eq, List.append_assoc, List.cons_append]
    exact stays _

/-- A call with a list over two lines. -/
def twoLineText : String := "$this->call([A::class,\nB::class]);\n"

/-- The section comes between the lines. -/
theorem merge_seeders_twoLine :
    find? .seeders twoLineText = none ∧ endOf? seederAnchor twoLineText = some 13 ∧
    AreBlanks Render.seederIndent.toList ∧ Php.closingFrom? 13 twoLineText.toList =
      some 31 ∧ ∃ outcome,
      merge .seeders ["C::class,"] (some seederAnchor) Render.seederIndent twoLineText =
        (.inserted, outcome) ∧
      IsPutBetween 13 31 (wrap .seeders ["C::class,"] Render.seederIndent) twoLineText outcome := by
  have missing : find? .seeders twoLineText = none := by decide +kernel
  have isAnchor : endOf? seederAnchor twoLineText = some 13 := by decide +kernel
  have closes : Php.closingFrom? 13 twoLineText.toList = some 31 := by decide +kernel
  have feed : '\n' ∈ (twoLineText.toList.take 31).drop 13 := by decide +kernel
  obtain ⟨outcome, inserts, -, inList⟩ :=
    merge_seeders_iff missing isAnchor Render.areBlanks_seederIndent ["C::class,"]
  exact ⟨missing, isAnchor, Render.areBlanks_seederIndent, closes, outcome, inserts,
    (inList 31 closes).1.2 feed⟩

/-- A call with its list on one line. -/
def oneLineText : String := "$this->call([A::class]);\n"

/-- The section comes behind the list. -/
theorem merge_seeders_oneLine :
    find? .seeders oneLineText = none ∧ endOf? seederAnchor oneLineText = some 13 ∧
    Php.closingFrom? 13 oneLineText.toList = some 21 ∧ ∃ outcome,
      outcome = oneLineText ++
        "            // >>> AI-NATIVE SEEDERS START\n            B::class,\n" ++
        "            // >>> AI-NATIVE SEEDERS END\n" ∧
      merge .seeders ["B::class,"] (some seederAnchor) Render.seederIndent oneLineText =
        (.inserted, outcome) ∧
      ¬ IsPutBetween 13 21 (wrap .seeders ["B::class,"] Render.seederIndent)
        oneLineText outcome := by
  have missing : find? .seeders oneLineText = none := by decide +kernel
  have isAnchor : endOf? seederAnchor oneLineText = some 13 := by decide +kernel
  have closes : Php.closingFrom? 13 oneLineText.toList = some 21 := by decide +kernel
  have text_eq : oneLineText.toList = seederAnchor.toList ++
    ("A::class".toList ++ ']' :: ");\n".toList) := by decide +kernel
  have inserts : merge .seeders ["B::class,"] (some seederAnchor) Render.seederIndent oneLineText =
      (.inserted, insertAfter .seeders ["B::class,"] Render.seederIndent seederAnchor.toList.length
        oneLineText) := by
    decide +kernel
  refine ⟨missing, isAnchor, closes, _, ?_, inserts, fun inside => ?_⟩
  · decide +kernel
  · have feed :=
      (isPutBetween_insertAfter_iff Render.areBlanks_seederIndent (by decide) (by decide) text_eq
        (by decide) _).1 inside
    exact absurd feed (by decide)

end Section
end Scaffold
