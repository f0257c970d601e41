import Mathlib.Data.List.Basic
import Scaffold.Text.Blank

/-!
# Lines

A text of lines, each with a line feed, has these lines again (`Text.lines_unlines`), if none of
them holds the end of a line; the lines of a text hold none (`Text.isLine_of_mem_lines`).
-/

namespace Scaffold.Text
set_option autoImplicit false

/-- No line ends inside the text. -/
def IsLine (text : String) : Prop := ∀ c ∈ text.toList, isLineEnd c = false

instance (text : String) : Decidable (IsLine text) :=
  Chars.decidableForallMem (fun c => isLineEnd c = false) text.toList

@[simp]
theorem isLine_empty : IsLine "" := by
  simp [IsLine]

theorem isLine_append {front back : String} :
    IsLine (front ++ back) ↔ IsLine front ∧ IsLine back := by
  simp only [IsLine, String.toList_append, List.mem_append, or_imp, forall_and]

/-- Lines and a last one are the lines, each with its line feed, and the last one. -/
theorem toList_unlines_concat (lines : List String) (last : String) :
    (unlines (lines ++ [last])).toList = lines.flatMap (fun line => line.toList ++ ['\n']) ++
      last.toList := by
  induction lines with
  | nil => simp [unlines, join]
  | cons line lines ih =>
    have first :
        unlines (line :: (lines ++ [last])) = line ++ "\n" ++ unlines (lines ++ [last]) := by
      have cut :=
        @String.intercalate_append_of_ne_nil [line] (lines ++ [last]) "\n"
          (List.cons_ne_nil line []) (by simp)
      rwa [String.intercalate_singleton] at cut
    have feed : "\n".toList = ['\n'] := rfl
    rw [List.cons_append, first, String.toList_append, String.toList_append, ih, feed,
      List.flatMap_cons]
    simp only [List.append_assoc]

/-- A line among others stands between those before it and those after it. -/
theorem toList_unlines_around (head : List String) (line : String) {tail : List String}
    (filled : tail ≠ []) : (unlines (head ++ line :: tail)).toList =
      head.flatMap (fun line => line.toList ++ ['\n']) ++ line.toList ++
        '\n' :: (unlines tail).toList := by
  have cut : unlines (head ++ [line] ++ tail) = unlines (head ++ [line]) ++ "\n" ++ unlines tail :=
    String.intercalate_append_of_ne_nil (by simp) filled
  have feed : "\n".toList = ['\n'] := rfl
  rw [List.append_cons, cut, String.toList_append, String.toList_append,
    toList_unlines_concat, feed]
  simp only [List.append_assoc, List.singleton_append]

/-- A line stands in the text of its lines. -/
theorem infix_unlines {line : String} {lines : List String} (mem : line ∈ lines) :
    line.toList <:+: (unlines lines).toList := by
  obtain ⟨front, back, rfl⟩ := List.append_of_mem mem
  cases back with
  | nil =>
    rw [toList_unlines_concat]
    exact (List.suffix_append ..).isInfix
  | cons next back =>
    rw [toList_unlines_around front line (List.cons_ne_nil next back)]
    exact (List.suffix_append ..).isInfix.trans (List.prefix_append ..).isInfix

/-- A text of lines has the characters of the lines and line feeds. -/
theorem of_mem_unlines {c : Char} {lines : List String} (mem : c ∈ (unlines lines).toList) :
    c = '\n' ∨ ∃ line ∈ lines, c ∈ line.toList := by
  rcases List.eq_nil_or_concat lines with rfl | ⟨front, last, rfl⟩
  · simp [unlines, join] at mem
  · rw [List.concat_eq_append, toList_unlines_concat, List.mem_append, List.mem_flatMap] at mem
    rw [List.concat_eq_append]
    rcases mem with ⟨line, isLine, mem⟩ | mem
    · rw [List.mem_append, List.mem_singleton] at mem
      exact mem.symm.imp_right fun mem => ⟨line, List.mem_append_left _ isLine, mem⟩
    · exact .inr ⟨last, by simp, mem⟩

/-- Behind what was read of a line without its end, none of the lines holds an end. -/
theorem not_isLineEnd_of_mem_linesFrom {read text line : List Char}
    (straight : ∀ c ∈ read, isLineEnd c = false) (mem : line ∈ linesFrom read text) :
    ∀ c ∈ line, isLineEnd c = false := by
  induction read, text using linesFrom.induct with
  | case1 => exact absurd mem List.not_mem_nil
  | case2 read _ =>
    obtain rfl : line = read.reverse := by simpa [linesFrom] using mem
    simpa using straight
  | case3 read rest ih =>
    rw [linesFrom, List.mem_cons] at mem
    rcases mem with rfl | mem
    · simpa using straight
    · exact ih (by simp) mem
  | case4 read c rest _ ends ih =>
    rw [linesFrom, if_pos ends, List.mem_cons] at mem
    · rcases mem with rfl | mem
      · simpa using straight
      · exact ih (by simp) mem
    · assumption
  | case5 read c rest _ goesOn ih =>
    rw [linesFrom, if_neg goesOn] at mem
    · exact ih (by simpa [goesOn] using straight) mem
    · assumption

theorem isLine_of_mem_lines {text line : String} (mem : line ∈ lines text) : IsLine line := by
  obtain ⟨chars, isPiece, rfl⟩ := List.mem_map.1 mem
  rw [IsLine, String.toList_ofList]
  exact not_isLineEnd_of_mem_linesFrom (List.forall_mem_nil _) isPiece

/-! ## One line after the other -/

/-- A character ends a line or goes on it, unless it begins an end of two characters. -/
theorem linesFrom_cons {c : Char} {rest : List Char} (single : c = '\r' → rest.head? ≠ some '\n')
    (read : List Char) : linesFrom read (c :: rest) = if isLineEnd c then read.reverse :: linesFrom
      [] rest else linesFrom (c :: read) rest := by
  rw [linesFrom]
  rintro more rfl rfl
  exact single rfl rfl

theorem linesFrom_newline (read rest : List Char) :
    linesFrom read ('\n' :: rest) = read.reverse :: linesFrom [] rest := by
  rw [linesFrom_cons (absurd · (by decide)), if_pos (by decide)]

/-- What was read of a line goes in front of the first line of the rest. -/
theorem exists_linesFrom {text : List Char} (filled : text ≠ []) :
    ∃ first others, ∀ read, linesFrom read text = (read.reverse ++ first) :: others := by
  induction text with
  | nil => exact absurd rfl filled
  | cons c rest ih =>
    by_cases double : c = '\r' ∧ rest.head? = some '\n'
    · obtain ⟨rfl, newline⟩ := double
      obtain ⟨more, rfl⟩ := List.head?_eq_some_iff.1 newline
      exact ⟨[], linesFrom [] more, fun read => by rw [linesFrom, List.append_nil]⟩
    · have cut := @linesFrom_cons c rest fun isReturn newline => double ⟨isReturn, newline⟩
      cases ends : isLineEnd c with
      | true => exact ⟨[], linesFrom [] rest, fun read => by rw [cut, if_pos ends, List.append_nil]⟩
      | false =>
        cases rest with
        | nil => exact ⟨[c], [], fun read => by simp [cut, ends, linesFrom]⟩
        | cons d rest =>
          obtain ⟨first, others, eq⟩ := ih (List.cons_ne_nil d rest)
          exact ⟨c :: first, others, fun read => by simp [cut, ends, eq]⟩

/-- A beginning without the end of a line goes on the first line. -/
theorem linesFrom_append {line : List Char} (straight : ∀ c ∈ line, isLineEnd c = false)
    (read rest : List Char) :
    linesFrom read (line ++ rest) = linesFrom (line.reverse ++ read) rest := by
  induction line generalizing read with
  | nil => rfl
  | cons c line ih =>
    obtain ⟨goesOn, straight⟩ := List.forall_mem_cons.1 straight
    have notReturn : c ≠ '\r' := by
      rintro rfl
      exact absurd goesOn (by decide)
    rw [List.cons_append, linesFrom_cons (absurd · notReturn), if_neg (by simp [goesOn]),
      ih straight, List.reverse_cons, List.append_assoc]
    rfl

section
variable {c : Char} {read rest : List Char} (whole : ∀ more, c = '\r' → rest = '\n' :: more → False)

include whole

/-- In front of more text a character begins no end of two characters if it begins none with what is
next to it. -/
theorem linesFrom_cons_append (filled : c = '\r' → rest ≠ []) (more : List Char) :
    linesFrom read (c :: rest ++ more) =
      if isLineEnd c then read.reverse :: linesFrom [] (rest ++ more)
        else linesFrom (c :: read) (rest ++ more) := by
  rw [List.cons_append, linesFrom_cons]
  intro isReturn newline
  rw [List.head?_append_of_ne_nil _ (filled isReturn)] at newline
  obtain ⟨behind, eq⟩ := List.head?_eq_some_iff.1 newline
  exact whole behind isReturn eq

end

/-- Behind a line feed the lines begin anew. -/
theorem linesFrom_append_newline (read front back : List Char) :
    linesFrom read (front ++ '\n' :: back) = linesFrom read (front ++ ['\n']) ++
      linesFrom [] back := by
  induction read, front using linesFrom.induct with
  | case1 | case2 =>
    rw [List.nil_append, List.nil_append, linesFrom_newline, linesFrom_newline]
    rfl
  | case3 read rest ih => simp only [List.cons_append, linesFrom, ih]
  | case4 read c rest whole ends ih =>
    by_cases last : c = '\r' ∧ rest = []
    · -- the line feed belongs to the end that the text closes with
      obtain ⟨rfl, rfl⟩ := last
      simp [linesFrom]
    · have filled : c = '\r' → rest ≠ [] := fun isReturn empty => last ⟨isReturn, empty⟩
      rw [linesFrom_cons_append whole filled, linesFrom_cons_append whole filled, if_pos ends,
        if_pos ends, ih, List.cons_append]
  | case5 read c rest whole goesOn ih =>
    have filled : c = '\r' → rest ≠ [] := by
      rintro rfl
      exact absurd (by decide) goesOn
    rw [linesFrom_cons_append whole filled, linesFrom_cons_append whole filled, if_neg goesOn,
      if_neg goesOn, ih]

/-- A text that is one line with a line feed behind it holds no end of a line, a carriage return at
its end apart. -/
theorem straight_of_length {read text : List Char}
    (single : (linesFrom read (text ++ ['\n'])).length = 1)
    (last : text.getLast? ≠ some '\r') : ∀ c ∈ text, isLineEnd c = false := by
  have more (text : List Char) : (linesFrom [] (text ++ ['\n'])).length ≠ 0 := by
    obtain ⟨first, others, eq⟩ := @exists_linesFrom (text ++ ['\n']) (by simp)
    simp [eq]
  induction read, text using linesFrom.induct with
  | case1 | case2 => exact List.forall_mem_nil _
  | case3 read rest ih =>
    refine absurd (Nat.succ.inj ?_) (more rest)
    simpa [linesFrom] using single
  | case4 read c rest whole ends ih =>
    have filled : c = '\r' → rest ≠ [] := by
      rintro rfl rfl
      exact last rfl
    rw [linesFrom_cons_append whole filled, if_pos ends, List.length_cons] at single
    exact absurd (Nat.succ.inj single) (more rest)
  | case5 read c rest whole goesOn ih =>
    have filled : c = '\r' → rest ≠ [] := by
      rintro rfl
      exact absurd (by decide) goesOn
    rw [linesFrom_cons_append whole filled, if_neg goesOn] at single
    refine List.forall_mem_cons.2 ⟨by simpa using goesOn, ?_⟩
    cases rest with
    | nil => exact List.forall_mem_nil _
    | cons d rest => exact ih single (by rwa [List.getLast?_cons_cons] at last)

/-! ## Texts of lines -/

/-- The lines of a text with a line feed behind it. -/
def closedLines (text : String) : List String := lines (text ++ "\n")

theorem closedLines_eq (text : String) :
    closedLines text = (linesFrom [] (text.toList ++ ['\n'])).map String.ofList := by
  rw [closedLines, lines, String.toList_append]
  rfl

/-- A line with a line feed is this line. -/
theorem closedLines_of_isLine {line : String} (straight : IsLine line) :
    closedLines line = [line] := by
  rw [closedLines_eq, linesFrom_append straight, linesFrom_newline]
  simp [linesFrom]

theorem isLine_of_closedLines {text : String} (single : (closedLines text).length = 1)
    (last : text.toList.getLast? ≠ some '\r') : IsLine text := by
  rw [closedLines_eq, List.length_map] at single
  exact straight_of_length single last

/-- A beginning without the end of a line changes the first line only. -/
theorem exists_closedLines (text : String) :
    ∃ first others, closedLines text = first :: others ∧ ∀ front, IsLine front →
    closedLines (front ++ text) = (front ++ first) :: others := by
  obtain ⟨first, others, eq⟩ := @exists_linesFrom (text.toList ++ ['\n']) (by simp)
  refine ⟨String.ofList first, others.map String.ofList, ?_, fun front straight => ?_⟩
  · rw [closedLines_eq, eq]
    rfl
  · rw [closedLines_eq, String.toList_append, List.append_assoc, linesFrom_append straight, eq]
    simp

/-- Texts with a line feed behind each have their lines one after the other. -/
theorem closedLines_unlines {given : List String} (filled : given ≠ []) :
    closedLines (unlines given) = given.flatMap closedLines := by
  have read :
      ∀ given : List String, linesFrom [] (given.flatMap fun text => text.toList ++ ['\n']) =
      given.flatMap fun text => linesFrom [] (text.toList ++ ['\n']) := by
    intro given
    induction given with
    | nil => rfl
    | cons text given ih =>
      rw [List.flatMap_cons, List.append_assoc, List.singleton_append, linesFrom_append_newline, ih,
        List.flatMap_cons]
  have chars :
      (unlines given).toList ++ ['\n'] = given.flatMap fun text => text.toList ++ ['\n'] := by
    obtain ⟨front, last, rfl⟩ : ∃ front last, given = front ++ [last] :=
      ⟨given.dropLast, given.getLast filled, (List.dropLast_concat_getLast filled).symm⟩
    rw [toList_unlines_concat, List.flatMap_append, List.append_assoc]
    simp
  rw [closedLines_eq, chars, read given, List.map_flatMap]
  exact List.flatMap_congr fun text _ => (closedLines_eq text).symm

/-- A text of lines has these lines. -/
theorem lines_unlines {given : List String} (filled : given ≠ [])
    (straight : ∀ line ∈ given, IsLine line) : lines (unlines given ++ "\n") = given := by
  rw [← closedLines, closedLines_unlines filled, List.flatMap_congr fun line mem =>
    closedLines_of_isLine (straight line mem)]
  exact List.flatMap_singleton' given

end Scaffold.Text
