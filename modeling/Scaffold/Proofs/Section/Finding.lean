import Scaffold.Proofs.Text.Lines
import Scaffold.Proofs.Text.Searching

/-!
# Finding a section

A section that stands on lines of its own is found again exactly where it was put, if nothing in
front of it takes its closing marker and none of its lines holds a marker: `Section.findIn?_fill`.
-/

namespace Scaffold
set_option autoImplicit false

open Chars (EndsLine AreBlanks)

namespace Markers

/-- Markers of which each is a part of a line that begins with a slash, and which are not taken for
each other. -/
structure AreApart (markers : Markers) : Prop where
  opening : markers.opening.toList.head? = some '/'
  closing : markers.closing.toList.head? = some '/'
  openingLine : '\n' ∉ markers.opening.toList
  closingLine : '\n' ∉ markers.closing.toList
  only : Chars.find? markers.closing.toList (markers.opening.toList ++ ['\n']) = none
  once : Chars.findLast? markers.opening.toList (markers.opening.toList ++ ['\n']) = some 0

theorem areApart_of_mem {markers : Markers} (h : markers ∈ [routes, seeders]) :
    markers.AreApart := by
  simp only [List.mem_cons, List.not_mem_nil, or_false] at h
  rcases h with rfl | rfl <;> constructor <;> decide

/-- Lines that hold no marker. -/
def AreFree (markers : Markers) (body : List String) : Prop :=
  Text.has markers.opening (Text.unlines body) = false ∧
    Text.has markers.closing (Text.unlines body) = false

instance (markers : Markers) (body : List String) : Decidable (markers.AreFree body) :=
  inferInstanceAs (Decidable (_ ∧ _))

/-- No closing marker stands behind the first opening one. -/
def AreUnpaired (markers : Markers) (text : List Char) : Prop :=
  ∀ place, Chars.find? markers.opening.toList text = some place →
    Chars.find? markers.closing.toList (text.drop (place + markers.opening.toList.length)) = none

end Markers

namespace Section

/-- The lines of a section between its markers, as characters, each with its line feed. -/
def inside (body : List String) (indent : String) : List Char :=
  (body.map fun line => if line.isEmpty then "" else indent ++ line).flatMap fun line =>
    line.toList ++ ['\n']

theorem toList_wrap (markers : Markers) (body : List String) (indent : String) :
    (wrap markers body indent).toList =
      indent.toList ++ markers.opening.toList ++ ['\n'] ++
        (inside body indent ++ (indent.toList ++ markers.closing.toList)) := by
  rw [wrap, Text.toList_unlines_concat, List.flatMap_cons, inside, String.toList_append,
    String.toList_append]
  simp only [List.append_assoc]

theorem endsLine_inside (body : List String) (indent : String) : EndsLine (inside body indent) := by
  have all : ∀ lines : List String, EndsLine (lines.flatMap fun line => line.toList ++ ['\n']) := by
    intro lines
    induction lines with
    | nil => exact .inl rfl
    | cons line lines ih => exact EndsLine.append (.inr ⟨line.toList, rfl⟩) ih
  exact all _

/-- A marker that is on none of the lines is not in the section between them. -/
theorem find?_inside {body : List String} {indent : String} {tail : List Char}
    (blank : AreBlanks indent.toList) (line : '\n' ∉ '/' :: tail)
    (free : Chars.has ('/' :: tail) (Text.unlines body).toList = false) :
    Chars.find? ('/' :: tail) (inside body indent) = none := by
  have filled := List.cons_ne_nil '/' tail
  have absent : Chars.find? ('/' :: tail) (Text.unlines body).toList = none := by
    simpa [Chars.has] using free
  have each : ∀ l ∈ body.map (fun line => if line.isEmpty then "" else indent ++ line),
      Chars.find? ('/' :: tail) (l.toList ++ ['\n']) = none := by
    intro l mem
    obtain ⟨given, isLine, rfl⟩ := List.mem_map.1 mem
    refine Chars.find?_eq_none.2 (Chars.not_infix_concat filled line (Chars.find?_eq_none.1 ?_))
    split
    · exact Chars.find?_nil filled
    · rw [String.toList_append, Chars.find?_blanks_append blank, Option.map_eq_none_iff]
      exact Chars.find?_eq_none.2 fun here =>
        Chars.find?_eq_none.1 absent (here.trans (Text.infix_unlines isLine))
  rw [inside]
  revert each
  generalize body.map (fun line => if line.isEmpty then "" else indent ++ line) = lines
  intro each
  induction lines with
  | nil => exact Chars.find?_nil filled
  | cons l lines ih =>
    rw [List.flatMap_cons, Chars.find?_append filled line (.inr ⟨l.toList, rfl⟩),
      each l (List.mem_cons_self ..), ih fun other mem => each other (List.mem_cons_of_mem l mem)]
    rfl

/-! A text with a section, as its pieces: whole lines in front, blanks, the opening marker, the
lines inside, blanks again, the closing marker and what follows it. -/

section

variable {o c blanks lines before after : List Char}

/-- Behind the first line of a section its closing marker is the first one. -/
theorem find?_closing (closingLine : '\n' ∉ '/' :: c) (blank : AreBlanks blanks)
    (ends : EndsLine lines) (free : Chars.find? ('/' :: c) lines = none) :
    Chars.find? ('/' :: c) (lines ++ (blanks ++ ('/' :: c) ++ after)) =
      some (lines.length + blanks.length) := by
  have last : Chars.find? ('/' :: c) (blanks ++ ('/' :: c) ++ after) = some blanks.length := by
    rw [List.append_assoc, Chars.find?_blanks_append blank,
      Chars.find?_of_prefix (List.prefix_append ..)]
    simp
  rw [Chars.find?_append (List.cons_ne_nil '/' c) closingLine ends, free, last, Option.none_or,
    Option.map_some, Nat.add_comm]

/-- The opening marker before a place behind it is the one of the section. -/
theorem findLast?_opening (openingLine : '\n' ∉ '/' :: o) (blank : AreBlanks blanks)
    (once : Chars.findLast? ('/' :: o) ('/' :: o ++ ['\n']) = some 0) (whole : EndsLine before)
    (ends : EndsLine lines) (free : Chars.find? ('/' :: o) lines = none) :
    Chars.findLast? ('/' :: o) (before ++ (blanks ++ ('/' :: o) ++ ['\n'] ++ (lines ++ blanks))) =
      some (before.length + blanks.length) := by
  have filled := List.cons_ne_nil '/' o
  have last : Chars.findLast? ('/' :: o) blanks = none := by
    have shifted := @Chars.findLast?_blanks_append [] blanks o blank
    rwa [List.append_nil, Chars.findLast?_nil filled] at shifted
  have inner : Chars.findLast? ('/' :: o) (lines ++ blanks) = none := by
    rw [Chars.findLast?_append filled openingLine ends, last,
      Chars.findLast?_eq_none.2 (Chars.find?_eq_none.1 free)]
    rfl
  have first :
      Chars.findLast? ('/' :: o) (blanks ++ ('/' :: o) ++ ['\n']) = some blanks.length := by
    rw [List.append_assoc, Chars.findLast?_blanks_append blank, once]
    simp
  rw [Chars.findLast?_append filled openingLine whole, Chars.findLast?_append filled openingLine
    (.inr ⟨_, rfl⟩), inner, first]
  simp [Nat.add_comm]

/-- Behind the first opening marker of a text its first closing marker is the one of the section. -/
theorem findFrom?_closing {first place : Nat} (closingLine : '\n' ∉ '/' :: c)
    (whole : EndsLine before) (unpaired : ∀ place, Chars.find? ('/' :: o) before = some place →
      Chars.find? ('/' :: c) (before.drop (place + ('/' :: o).length)) = none)
    (blank : AreBlanks blanks) (only : Chars.find? ('/' :: c) ('/' :: o ++ ['\n']) = none)
    (found : Chars.find? ('/' :: c) after = some place)
    (isFirst : (Chars.find? ('/' :: o) before).or
      (some (before.length + blanks.length)) = some first) :
    Chars.findFrom? ('/' :: c) (first + ('/' :: o).length)
      (before ++ (blanks ++ ('/' :: o) ++ ['\n'] ++ after)) =
      some ((before ++ (blanks ++ ('/' :: o) ++ ['\n'])).length + place) := by
  have filled := List.cons_ne_nil '/' c
  cases inFront : Chars.find? ('/' :: o) before with
  | some early =>
    obtain rfl : early = first := by simpa [inFront] using isFirst
    -- neither what is left of the text in front nor the first line of the section holds a closing
    -- marker
    obtain ⟨inside, here, -⟩ := Chars.find?_eq_some.1 inFront
    have fits := here.length_le
    rw [List.length_drop] at fits
    have length : (before.take (early + ('/' :: o).length)).length = early + ('/' :: o).length :=
      List.length_take_of_le (by omega)
    have line : Chars.find? ('/' :: c) (blanks ++ ('/' :: o) ++ ['\n']) = none := by
      rw [List.append_assoc, Chars.find?_blanks_append blank, only]
      rfl
    have start := Chars.findFrom?_append ('/' :: c) (before.take (early + ('/' :: o).length))
      (before.drop (early + ('/' :: o).length) ++ (blanks ++ ('/' :: o) ++ ['\n'] ++ after))
    rw [← List.append_assoc, List.take_append_drop, length,
      Chars.find?_append filled closingLine (whole.drop _),
      unpaired early inFront, Chars.find?_append filled closingLine (.inr ⟨_, rfl⟩), line,
      found] at start
    rw [start]
    simp only [Option.none_or, Option.map_some, List.length_drop, List.length_append,
      Option.some.injEq]
    omega
  | none =>
    obtain rfl : before.length + blanks.length = first := by simpa [inFront] using isFirst
    have feed : Chars.find? ('/' :: c) ['\n'] = none := by
      have apart : ¬ '/' :: c <+: ['\n'] :=
        fun here => absurd (List.cons_prefix_cons.1 here).1 (by decide)
      rw [Chars.find?_cons, if_neg apart, Chars.find?_nil filled]
      rfl
    have ends : EndsLine ['\n'] := .inr ⟨[], rfl⟩
    have start :=
      Chars.findFrom?_append ('/' :: c) (before ++ blanks ++ ('/' :: o)) (['\n'] ++ after)
    rw [Chars.find?_append filled closingLine ends, feed, found] at start
    simp only [List.length_append, List.append_assoc, Option.none_or, Option.map_some,
      Nat.add_assoc] at start ⊢
    rw [start, Option.some.injEq]
    omega

end

variable {markers : Markers} {body : List String} {indent : String} {before after : List Char}

/-- How a section is found: its closing marker is the first behind the first opening one, its
opening marker the last before that, and it stands for their lines. -/
theorem findIn?_eq_some {text : List Char} {start stop : Nat} :
    findIn? markers text = some (start, stop) ↔ ∃ first closing nearest,
    Chars.find? markers.opening.toList text = some first ∧
      Chars.findFrom? markers.closing.toList (first + markers.opening.toList.length) text =
        some closing ∧
      Chars.findLast? markers.opening.toList (text.take closing) = some nearest ∧
      start = ((Chars.findLast? ['\n'] (text.take nearest)).map (· + 1)).getD 0 ∧
      stop = (Chars.findFrom? ['\n'] closing text).getD text.length := by
  simp only [findIn?, bind, Option.bind_eq_some_iff, pure, Option.some.injEq, Prod.mk.injEq]
  constructor
  · rintro ⟨first, isFirst, closing, isClosing, nearest, isNearest, isStart, isStop⟩
    exact ⟨first, closing, nearest, isFirst, isClosing, isNearest, isStart.symm, isStop.symm⟩
  · rintro ⟨first, closing, nearest, isFirst, isClosing, isNearest, isStart, isStop⟩
    exact ⟨first, isFirst, closing, isClosing, nearest, isNearest, isStart.symm, isStop.symm⟩

/-- The end of the line on which a text stands. -/
theorem lineEnd_eq {part : List Char} (line : '\n' ∉ part) (front : List Char)
    (follows : after.head? = none ∨ after.head? = some '\n') :
    (Chars.findFrom? ['\n'] front.length (front ++ (part ++ after))).getD
      (front ++ (part ++ after)).length = (front ++ part).length := by
  rw [Chars.findFrom?_append, Chars.find?_char_append line]
  rcases follows with empty | feed
  · obtain rfl := List.head?_eq_none_iff.1 empty
    simp [Chars.find?_nil]
  · obtain ⟨rest, rfl⟩ := List.head?_eq_some_iff.1 feed
    rw [Chars.find?_of_prefix (by simp)]
    simp [Nat.add_comm]

/-- A section is found where it was put: behind whole lines that leave its closing marker to it, and
in front of a line feed or at the end. -/
theorem findIn?_wrap (apart : markers.AreApart) (whole : EndsLine before)
    (unpaired : markers.AreUnpaired before) (blank : AreBlanks indent.toList)
    (free : markers.AreFree body) (follows : after.head? = none ∨ after.head? = some '\n') :
    findIn? markers (before ++ (wrap markers body indent).toList ++ after) =
      some (before.length, (before ++ (wrap markers body indent).toList).length) := by
  obtain ⟨o, opening⟩ := List.head?_eq_some_iff.1 apart.opening
  obtain ⟨c, closing⟩ := List.head?_eq_some_iff.1 apart.closing
  have openingLine := opening ▸ apart.openingLine
  have closingLine := closing ▸ apart.closingLine
  have only := apart.only
  have once := apart.once
  rw [opening] at only once
  rw [closing] at only
  have ends := endsLine_inside body indent
  have freeOpening : Chars.find? ('/' :: o) (inside body indent) = none :=
    find?_inside blank openingLine (opening ▸ free.1)
  have freeClosing : Chars.find? ('/' :: c) (inside body indent) = none :=
    find?_inside blank closingLine (closing ▸ free.2)
  unfold Markers.AreUnpaired at unpaired
  rw [opening, closing] at unpaired
  rw [toList_wrap, opening, closing]
  generalize inside body indent = lines at ends freeOpening freeClosing
  generalize indent.toList = blanks at blank
  have filled := List.cons_ne_nil '/' o
  have straight : '\n' ∉ blanks := fun feed => by rcases blank _ feed with eq | eq <;> cases eq
  have found := @find?_closing c blanks lines after closingLine blank ends freeClosing
  have nearest :=
    @findLast?_opening o blanks lines before openingLine blank once whole ends freeOpening
  -- the first opening marker is in front, or it is the one of the section
  have here : Chars.find? ('/' :: o)
      (before ++ (blanks ++ ('/' :: o) ++ ['\n'] ++ (lines ++ (blanks ++ ('/' :: c) ++ after)))) =
      (Chars.find? ('/' :: o) before).or (some (before.length + blanks.length)) := by
    have first : Chars.find? ('/' :: o)
        (blanks ++ (('/' :: o) ++ (['\n'] ++ (lines ++ (blanks ++ ('/' :: c) ++ after))))) =
        some blanks.length := by
      rw [Chars.find?_blanks_append blank, Chars.find?_of_prefix (List.prefix_append ..)]
      simp
    rw [Chars.find?_append filled openingLine whole]
    simp only [List.append_assoc] at first ⊢
    rw [first, Option.map_some, Nat.add_comm]
  obtain ⟨first, isFirst⟩ : ∃ first,
      (Chars.find? ('/' :: o) before).or (some (before.length + blanks.length)) = some first := by
    cases Chars.find? ('/' :: o) before <;> simp
  have closes := findFrom?_closing closingLine whole unpaired blank only found isFirst
  have stop :=
    lineEnd_eq closingLine (before ++ (blanks ++ ('/' :: o) ++ ['\n']) ++ (lines ++ blanks)) follows
  have start :
      ((Chars.findLast? ['\n'] (before ++ blanks)).map (· + 1)).getD 0 = before.length := by
    rw [Chars.findLast?_char_append straight, whole.getD_findLast?]
  -- the text up to the closing marker
  let front := before ++ (blanks ++ ('/' :: o) ++ ['\n']) ++ (lines ++ blanks)
  have text :
      before ++ (blanks ++ ('/' :: o) ++ ['\n'] ++ (lines ++ (blanks ++ ('/' :: c)))) ++ after =
      front ++ ('/' :: c ++ after) := by
    simp only [front, List.append_assoc]
  have upTo :
      (front ++ ('/' :: c ++ after)).take (before.length + blanks.length) = before ++ blanks := by
    have cut : front ++ ('/' :: c ++ after) = before ++ blanks ++
        (('/' :: o) ++ (['\n'] ++ (lines ++ (blanks ++ ('/' :: c ++ after))))) := by
      simp only [front, List.append_assoc]
    rw [cut, ← List.length_append, List.take_left]
  rw [text, findIn?_eq_some, opening, closing]
  refine ⟨first, front.length, before.length + blanks.length, ?_, ?_, ?_, ?_, ?_⟩
  · simpa only [front, List.append_assoc, isFirst] using here
  · simpa only [front, List.append_assoc, List.length_append, Nat.add_assoc] using closes
  · rw [List.take_left]
    simpa only [front, List.append_assoc] using nearest
  · rw [upTo, start]
  · rw [stop]
    simp only [List.append_assoc]

end Section
end Scaffold
