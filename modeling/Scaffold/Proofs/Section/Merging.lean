import Scaffold.Proofs.Section.Finding

/-!
# Merging a section

What a merge leaves of a text does not hang on the lines that it puts in: `Section.Frames` says what
stands before the section and after it, in each of the ways in which a section gets into a text. So
nothing outside the lines of a section is lost (`Section.keeps_mergeAfter`), and a later merge
replaces what an earlier one put in, and that only (`Section.mergeAfter_mergeAfter`).
-/

namespace Scaffold
set_option autoImplicit false

open Chars (EndsLine AreBlanks)

namespace Chars

variable {c : Char} {text : List Char}

theorem infix_singleton : [c] <:+: text ↔ c ∈ text := by
  constructor
  · exact fun here => here.subset (List.mem_singleton.2 rfl)
  · intro mem
    obtain ⟨front, back, rfl⟩ := List.append_of_mem mem
    exact ⟨front, back, by simp⟩

/-- The last occurrence of a character cuts a text. -/
theorem cut_of_findLast? {place : Nat} (h : findLast? [c] text = some place) :
    ∃ front back, text = front ++ c :: back ∧ front.length = place ∧ c ∉ back := by
  induction text generalizing place with
  | nil => simp [findLast?_nil] at h
  | cons d text ih =>
    rw [findLast?_cons, Option.or_eq_some_iff] at h
    rcases h with later | ⟨absent, here⟩
    · obtain ⟨before, found, rfl⟩ := Option.map_eq_some_iff.1 later
      obtain ⟨front, back, rfl, rfl, last⟩ := ih found
      exact ⟨d :: front, back, rfl, rfl, last⟩
    · split at here
      · rename_i first
        obtain rfl := (List.cons_prefix_cons.1 first).1
        obtain rfl := Option.some.inj here
        rw [Option.map_eq_none_iff, findLast?_eq_none, infix_singleton] at absent
        exact ⟨[], text, rfl, rfl, absent⟩
      · cases here

/-- A text is whole lines and the beginning of one. -/
theorem cut_lines (text : List Char) :
    ∃ lines front, text = lines ++ front ∧ EndsLine lines ∧ '\n' ∉ front ∧
    ((findLast? ['\n'] text).map (· + 1)).getD 0 = lines.length := by
  cases found : findLast? ['\n'] text with
  | none =>
    rw [findLast?_eq_none, infix_singleton] at found
    exact ⟨[], text, rfl, .inl rfl, found, rfl⟩
  | some place =>
    obtain ⟨line, front, rfl, rfl, straight⟩ := cut_of_findLast? found
    exact ⟨line ++ ['\n'], front, by simp, .inr ⟨line, rfl⟩, straight, by simp⟩

/-- A text is the rest of a line and what follows it. -/
theorem cut_line (text : List Char) : ∃ back after, text = back ++ after ∧ '\n' ∉ back ∧
    (after.head? = none ∨ after.head? = some '\n') := by
  induction text with
  | nil => exact ⟨[], [], rfl, List.not_mem_nil, .inl rfl⟩
  | cons d text ih =>
    by_cases feed : d = '\n'
    · exact ⟨[], d :: text, rfl, List.not_mem_nil, .inr (by rw [feed]; rfl)⟩
    · obtain ⟨back, after, rfl, straight, follows⟩ := ih
      refine ⟨d :: back, after, rfl, ?_, follows⟩
      rw [List.mem_cons, not_or]
      exact ⟨fun same => feed same.symm, straight⟩

end Chars

namespace Markers

variable {markers : Markers} {front back : List Char}

theorem AreApart.filled (apart : markers.AreApart) :
    markers.opening.toList ≠ [] ∧ markers.closing.toList ≠ [] := by
  have opening := apart.opening
  have closing := apart.closing
  constructor
  · intro empty
    simp [empty] at opening
  · intro empty
    simp [empty] at closing

/-- What no marker closes is closed in no part of it. -/
theorem AreUnpaired.left (h : markers.AreUnpaired (front ++ back)) : markers.AreUnpaired front := by
  intro place found
  have fits := (Chars.find?_eq_some.1 found).2.1.length_le
  have inside := (Chars.find?_eq_some.1 found).1
  rw [List.length_drop] at fits
  have absent := h place (Chars.find?_append_left found)
  rw [List.drop_append_of_le_length (by omega), Chars.find?_eq_none] at absent
  exact Chars.find?_eq_none.2 fun here => absent (here.trans (List.prefix_append ..).isInfix)

/-- The end of a line closes nothing. -/
theorem AreUnpaired.concat (apart : markers.AreApart) (h : markers.AreUnpaired front) :
    markers.AreUnpaired (front ++ ['\n']) := by
  intro place found
  cases before : Chars.find? markers.opening.toList front with
  | none =>
    have absent :=
      Chars.not_infix_concat apart.filled.1 apart.openingLine (Chars.find?_eq_none.1 before)
    rw [Chars.find?_eq_none.2 absent] at found
    cases found
  | some early =>
    obtain rfl := Option.some.inj ((Chars.find?_append_left before).symm.trans found)
    have fits := (Chars.find?_eq_some.1 before).2.1.length_le
    have inside := (Chars.find?_eq_some.1 before).1
    rw [List.length_drop] at fits
    rw [List.drop_append_of_le_length (by omega), Chars.find?_eq_none]
    exact Chars.not_infix_concat apart.filled.2 apart.closingLine
      (Chars.find?_eq_none.1 (h early before))

end Markers

namespace Section

variable {markers : Markers} {text : List Char}

/-- A text with a section in it: the closing marker is the first behind the first opening one, and
the opening marker is the last one before it. -/
structure HasSection (markers : Markers)
    (text before front middle back after : List Char) : Prop where
  text_eq : text = before ++ (front ++ markers.opening.toList ++ middle) ++
    (markers.closing.toList ++ back) ++ after
  whole : EndsLine before
  straight : '\n' ∉ front ∧ '\n' ∉ back
  follows : after.head? = none ∨ after.head? = some '\n'
  closed : markers.AreUnpaired (before ++ (front ++ markers.opening.toList ++ middle))
  nearest : Chars.findLast? markers.opening.toList
    (before ++ (front ++ markers.opening.toList ++ middle)) =
    some (before ++ front).length

/-- Nothing before the first closing marker behind the first opening one is closed. -/
theorem unpaired_take {first closing : Nat} (apart : markers.AreApart)
    (isFirst : Chars.find? markers.opening.toList text = some first)
    (isClosing : Chars.findFrom? markers.closing.toList (first + markers.opening.toList.length)
      text = some closing) :
    markers.AreUnpaired (text.take closing) := by
  obtain ⟨later, found, rfl, -⟩ := Chars.findFrom?_eq_some.1 isClosing
  intro place early
  have onText :=
    @Chars.find?_append_left _ (text.take (later + (first + markers.opening.toList.length)))
    (text.drop (later + (first + markers.opening.toList.length))) _ early
  rw [List.take_append_drop, isFirst] at onText
  obtain rfl := Option.some.inj onText
  rw [List.drop_take, Nat.add_sub_cancel]
  exact Chars.find?_take apart.filled.2 found

/-- What is found is the lines of a section. -/
theorem hasSection_of_findIn? {start stop : Nat} (apart : markers.AreApart)
    (h : findIn? markers text = some (start, stop)) :
    ∃ before front middle back after, HasSection markers text before front middle back after ∧
    before.length = start ∧
      text.drop stop = after := by
  obtain ⟨first, closing, nearest, isFirst, isClosing, isNearest, rfl, rfl⟩ := findIn?_eq_some.1 h
  have closed := unpaired_take apart isFirst isClosing
  -- up to the closing marker, and from there on
  obtain ⟨later, found, isLater, long⟩ := Chars.findFrom?_eq_some.1 isClosing
  obtain ⟨inside, closes, -⟩ := Chars.find?_eq_some.1 found
  rw [List.drop_drop, Nat.add_comm, isLater] at closes
  rw [List.length_drop] at inside
  have length : (text.take closing).length = closing := List.length_take_of_le (by omega)
  obtain ⟨rest, atClosing⟩ := closes
  obtain ⟨back, after, rfl, straight', follows⟩ := Chars.cut_line rest
  -- up to the line of the opening marker, and from the marker on
  obtain ⟨within, middle, atOpening⟩ := Chars.of_findLast? isNearest
  obtain ⟨before, front, upTo, whole, straight, isStart⟩ :=
    Chars.cut_lines ((text.take closing).take nearest)
  have cut : text.take closing = before ++ (front ++ markers.opening.toList ++ middle) := by
    rw [← List.take_append_drop nearest (text.take closing), upTo, ← atOpening]
    simp only [List.append_assoc]
  have whole_text : text = before ++ (front ++ markers.opening.toList ++ middle) ++
      (markers.closing.toList ++ back) ++ after := by
    rw [← cut, List.append_assoc, List.append_assoc, atClosing, List.take_append_drop]
  have short : ((text.take closing).take nearest).length = nearest := List.length_take_of_le within
  refine ⟨before, front, middle, back, after, ⟨whole_text, whole, ⟨straight, straight'⟩, follows,
    cut ▸ closed, ?_⟩, ?_, ?_⟩
  · rw [← cut, ← upTo, short, isNearest]
  · rw [← isStart, List.take_take, Nat.min_eq_left (length ▸ within)]
  · have line : '\n' ∉ markers.closing.toList ++ back := by
      rw [List.mem_append, not_or]
      exact ⟨apart.closingLine, straight'⟩
    have stop := lineEnd_eq line (text.take closing) follows
    have parts : text.take closing ++ (markers.closing.toList ++ back ++ after) = text := by
      rw [List.append_assoc, atClosing, List.take_append_drop]
    rw [parts, length] at stop
    rw [← List.append_assoc] at parts
    rw [stop]
    exact (congrArg (List.drop _) parts.symm).trans List.drop_left

/-- Where no section is found, none is closed. -/
theorem unpaired_of_findIn? (h : findIn? markers text = none) : markers.AreUnpaired text := by
  intro first isFirst
  have fits := (Chars.find?_eq_some.1 isFirst).2.1.length_le
  have inside := (Chars.find?_eq_some.1 isFirst).1
  rw [List.length_drop] at fits
  cases found :
      Chars.find? markers.closing.toList (text.drop (first + markers.opening.toList.length)) with
  | none => rfl
  | some later =>
    -- then the section that begins there would be found
    have isClosing := Chars.findFrom?_eq_some.2 ⟨later, found, rfl, by omega⟩
    have opens : markers.opening.toList <:+:
        text.take (later + (first + markers.opening.toList.length)) := by
      have here : markers.opening.toList <+:
          (text.take (later + (first + markers.opening.toList.length))).drop first := by
        rw [List.drop_take, List.prefix_take_iff]
        exact ⟨(Chars.find?_eq_some.1 isFirst).2.1, by omega⟩
      exact here.isInfix.trans (List.drop_suffix ..).isInfix
    obtain ⟨nearest, isNearest⟩ : ∃ nearest, Chars.findLast? markers.opening.toList
        (text.take (later + (first + markers.opening.toList.length))) = some nearest :=
      Option.ne_none_iff_exists'.1 fun absent => Chars.findLast?_eq_none.1 absent opens
    rw [findIn?_eq_some.2 ⟨first, _, nearest, isFirst, isClosing, isNearest, rfl, rfl⟩] at h
    cases h

/-- What stands before and after the section that a merge puts into a text, and the blanks before
its markers. -/
inductive Frames (markers : Markers) (place : Option Nat) (indent : String) (text : List Char) :
    Outcome → List Char → String → List Char → Prop where
  /-- The lines of the section that is there are replaced, at their indentation. -/
  | replaced {before front middle back after : List Char}
      (stands : HasSection markers text before front middle back after) :
      Frames markers place indent text .replaced before (indentOf front) after
  /-- There is no section, and the new one comes after the line on which the anchor ends. -/
  | inserted {anchor : Nat} {line after : List Char} (missing : findIn? markers text = none)
      (isPlace : place = some anchor) (text_eq : text = line ++ ['\n'] ++ after)
      (ends : anchor ≤ line.length + 1 ∧ '\n' ∉ line.drop anchor) :
      Frames markers place indent text .inserted (line ++ ['\n']) indent ('\n' :: after)
  /-- The anchor ends on the last line, which has no line feed. -/
  | insertedLast {anchor : Nat} (missing : findIn? markers text = none)
      (isPlace : place = some anchor)
      (ends : '\n' ∉ text.drop anchor) : Frames markers place indent text .inserted
      (text ++ ['\n']) indent ['\n']
  /-- There is no anchor either, and the section comes to the end, behind an empty line. -/
  | appended {kept : List Char} {count : Nat} (missing : findIn? markers text = none)
      (isPlace : place = none) (text_eq : text = kept ++ List.replicate count '\n')
      (last : kept.getLast? ≠ some '\n') :
      Frames markers place indent text .appended (kept ++ if kept = [] then []
        else ['\n', '\n']) "" ['\n']

theorem areBlanks_indentOf (text : List Char) : AreBlanks (indentOf text).toList := by
  intro c mem
  rw [indentOf, String.toList_ofList] at mem
  simpa using List.all_eq_true.1 List.all_takeWhile c mem

/-- A marker behind blanks ends them. -/
theorem indentOf_append {part rest : List Char} (front : List Char)
    (slash : part.head? = some '/') : indentOf (front ++ (part ++ rest)) = indentOf front := by
  obtain ⟨tail, rfl⟩ := List.head?_eq_some_iff.1 slash
  have same : (front ++ ('/' :: tail ++ rest)).takeWhile (fun c => c = ' ' || c = '\t') =
      front.takeWhile fun c => c = ' ' || c = '\t' := by
    induction front with
    | nil => rfl
    | cons c front ih => simp only [List.cons_append, List.takeWhile_cons] at ih ⊢; rw [ih]
  rw [indentOf, indentOf, same]

/-- A text without the line feeds at its end. -/
theorem exists_kept (text : List Char) :
    ∃ kept count, (text.reverse.dropWhile (· = '\n')).reverse = kept ∧
    text = kept ++ List.replicate count '\n' ∧ kept.getLast? ≠ some '\n' := by
  have feeds : text.reverse.takeWhile (· = '\n') = List.replicate
    (text.reverse.takeWhile (· = '\n')).length '\n' :=
    List.eq_replicate_of_mem fun c mem => by simpa using List.all_eq_true.1 List.all_takeWhile c mem
  refine ⟨_, (text.reverse.takeWhile (· = '\n')).length, rfl, ?_, ?_⟩
  · rw [← List.reverse_inj, List.reverse_append, List.reverse_reverse,
      List.reverse_replicate, ← feeds, List.takeWhile_append_dropWhile]
  · rw [List.getLast?_reverse]
    intro last
    have no := List.head?_dropWhile_not (· = '\n') text.reverse
    rw [last] at no
    simp at no

variable {body : List String} {place : Option Nat} {indent : String}

/-- The line on which an anchor ends, and what follows its line feed, if it has one. -/
theorem insertAfter_cases (markers : Markers) (indent : String) (anchor : Nat) (text : String) :
    (∃ line after, text.toList = line ++ ['\n'] ++ after ∧
      (anchor ≤ line.length + 1 ∧ '\n' ∉ line.drop anchor) ∧
      ∀ body, insertAfter markers body indent anchor text =
        String.ofList (line ++ ['\n']) ++ wrap markers body indent ++ String.ofList
          ('\n' :: after)) ∨
    ('\n' ∉ text.toList.drop anchor ∧ ∀ body, insertAfter markers body indent anchor text =
      String.ofList (text.toList ++ ['\n']) ++ wrap markers body indent ++
        String.ofList ['\n']) := by
  by_cases ends : (anchor ≠ 0 && text.toList[anchor - 1]? = some '\n') = true
  · -- the anchor ends with its line
    obtain ⟨later, feed⟩ : anchor ≠ 0 ∧ text.toList[anchor - 1]? = some '\n' := by simpa using ends
    obtain ⟨before, is⟩ := List.getElem?_eq_some_iff.1 feed
    have upTo : text.toList.take anchor = text.toList.take (anchor - 1) ++ ['\n'] := by
      have step := @List.take_append_getElem _ text.toList (anchor - 1) before
      rw [is] at step
      rw [step]
      congr 1
      omega
    have length : (text.toList.take (anchor - 1)).length = anchor - 1 :=
      List.length_take_of_le (Nat.le_of_lt before)
    refine .inl ⟨text.toList.take (anchor - 1), text.toList.drop anchor, ?_, ⟨by omega, ?_⟩,
      fun body => ?_⟩
    · rw [← upTo, List.take_append_drop]
    · rw [List.drop_eq_nil_of_le (by omega)]
      exact List.not_mem_nil
    · simp only [insertAfter, if_pos ends, upTo]
      exact String.toList_inj.1 (by simp)
  · cases next : Chars.findFrom? ['\n'] anchor text.toList with
    | some place =>
      obtain ⟨later, found, rfl, long⟩ := Chars.findFrom?_eq_some.1 next
      obtain ⟨inside, ⟨rest, here⟩, -⟩ := Chars.find?_eq_some.1 found
      rw [List.drop_drop, Nat.add_comm] at here
      have behind : text.toList.drop (later + anchor + 1) = rest := by
        rw [← List.drop_drop, ← here]
        rfl
      have upTo :
          text.toList.take (later + anchor + 1) = text.toList.take (later + anchor) ++ ['\n'] := by
        rw [List.take_add, ← here]
        rfl
      refine .inl ⟨text.toList.take (later + anchor), rest, ?_, ⟨?_, ?_⟩, fun body => ?_⟩
      · rw [List.append_assoc, here, List.take_append_drop]
      · rw [List.length_drop] at inside
        rw [List.length_take_of_le (by omega)]
        omega
      · have absent := Chars.find?_take (List.cons_ne_nil '\n' []) found
        rw [Chars.find?_eq_none, Chars.infix_singleton] at absent
        rwa [List.drop_take, Nat.add_sub_cancel]
      · simp only [insertAfter, if_neg ends, next, Option.map_some, upTo, behind]
        exact String.toList_inj.1 (by simp)
    | none =>
      refine .inr ⟨fun feed => ?_, fun body => ?_⟩
      · have long : anchor ≤ text.toList.length := by
          refine Nat.not_lt.1 fun short => ?_
          rw [List.drop_eq_nil_of_le (Nat.le_of_lt short)] at feed
          exact List.not_mem_nil feed
        cases found : Chars.find? ['\n'] (text.toList.drop anchor) with
        | none => exact Chars.find?_eq_none.1 found (Chars.infix_singleton.2 feed)
        | some later =>
          rw [Chars.findFrom?_eq_some.2 ⟨later, found, rfl, long⟩] at next
          cases next
      · simp only [insertAfter, if_neg ends, next, Option.map_none]
        exact String.toList_inj.1 (by simp)

theorem toList_append_section (before : List Char) (section_ : String) (after : List Char) :
    (String.ofList before ++ section_ ++ String.ofList after).toList = before ++
      section_.toList ++ after := by
  simp

/-- Whatever its lines are, a section comes into a text in one way. -/
theorem frames_mergeAfter (apart : markers.AreApart) (place : Option Nat) (indent text : String) :
    ∃ outcome before blanks after,
    Frames markers place indent text.toList outcome before blanks after ∧
      ∀ body, mergeAfter markers body place indent text =
        (outcome, String.ofList before ++ wrap markers body blanks ++ String.ofList after) := by
  cases found : findIn? markers text.toList with
  | some span =>
    obtain ⟨start, stop⟩ := span
    obtain ⟨before, front, middle, back, after, stands, rfl, isAfter⟩ :=
      hasSection_of_findIn? apart found
    have behind : text.toList = before ++ (front ++ (markers.opening.toList ++
        (middle ++ (markers.closing.toList ++ (back ++ after))))) := by
      rw [stands.text_eq]
      simp only [List.append_assoc]
    have isBefore : text.toList.take before.length = before := by rw [behind, List.take_left]
    have blanks : indentOf (text.toList.drop before.length) = indentOf front := by
      rw [behind, List.drop_left, indentOf_append front apart.opening]
    refine ⟨.replaced, _, _, _, .replaced stands, fun body => ?_⟩
    have replaces : replace? markers body text =
        some (String.ofList before ++ wrap markers body (indentOf front) ++
          String.ofList after) := by
      simp [replace?, found, isBefore, blanks, isAfter]
    simp only [mergeAfter, replaces]
  | none =>
    have missing : ∀ body, replace? markers body text = none := fun body => by
      simp [replace?, found]
    cases place with
    | none =>
      obtain ⟨kept, count, isKept, text_eq, last⟩ := exists_kept text.toList
      refine ⟨.appended, _, _, _, .appended found rfl text_eq last, fun body => ?_⟩
      simp only [mergeAfter, missing, append, isKept]
      by_cases empty : kept = []
      · simp [empty]
      · simp [empty]
    | some anchor =>
      rcases insertAfter_cases markers indent anchor text with ⟨line, after, text_eq, ends,
        eq⟩ | ⟨ends, eq⟩
      · exact ⟨.inserted, _, _, _, .inserted found rfl text_eq ends, fun body =>
          by simp only [mergeAfter, missing, eq]⟩
      · exact ⟨.inserted, _, _, _, .insertedLast found rfl ends, fun body =>
          by simp only [mergeAfter, missing, eq]⟩

namespace Frames

variable {text before after : List Char} {blanks : String} {outcome : Outcome} {place : Option Nat}
  {indent : String}

/-- Before a section stand whole lines that leave its closing marker to it, and after it the line
ends. -/
theorem fit (apart : markers.AreApart)
    (h : Frames markers place indent text outcome before blanks after) :
    EndsLine before ∧ markers.AreUnpaired before ∧
    (after.head? = none ∨ after.head? = some '\n') := by
  cases h with
  | replaced stands => exact ⟨stands.whole, stands.closed.left, stands.follows⟩
  | @inserted _ line after missing isPlace text_eq ends =>
    have unpaired := unpaired_of_findIn? missing
    rw [text_eq] at unpaired
    exact ⟨.inr ⟨line, rfl⟩, unpaired.left, .inr rfl⟩
  | insertedLast missing isPlace ends =>
    exact ⟨.inr ⟨text, rfl⟩, (unpaired_of_findIn? missing).concat apart, .inr rfl⟩
  | @appended kept count missing isPlace text_eq last =>
    have unpaired := unpaired_of_findIn? missing
    rw [text_eq] at unpaired
    by_cases empty : kept = []
    · rw [if_pos empty, List.append_nil]
      exact ⟨.inl empty, unpaired.left, .inr rfl⟩
    · rw [if_neg empty]
      refine ⟨.inr ⟨kept ++ ['\n'], by simp⟩, ?_, .inr rfl⟩
      have twice := (unpaired.left.concat apart).concat apart
      rwa [List.append_assoc] at twice

/-- The blanks before the markers are blanks. -/
theorem areBlanks (h : Frames markers place indent text outcome before blanks after)
    (blank : AreBlanks indent.toList) : AreBlanks blanks.toList := by
  cases h with
  | replaced stands => exact areBlanks_indentOf _
  | inserted => exact blank
  | insertedLast => exact blank
  | appended => exact fun c mem => absurd mem List.not_mem_nil

end Frames

/-- A merge keeps what stands outside the lines of the section: `Frames` tells what that is. -/
theorem keeps_mergeAfter (h : markers ∈ [Markers.routes, Markers.seeders]) (body : List String)
    (place : Option Nat) (indent text : String) :
    ∃ before blanks after,
      Frames markers place indent text.toList (mergeAfter markers body place indent text).1
        before blanks after ∧
      (mergeAfter markers body place indent text).2 =
        String.ofList before ++ wrap markers body blanks ++ String.ofList after := by
  obtain ⟨outcome, before, blanks, after, frames, eq⟩ :=
    frames_mergeAfter (Markers.areApart_of_mem h) place indent text
  exact ⟨before, blanks, after, by rwa [eq], by rw [eq]⟩

/-- A section with a word on the line of its opening marker, and one on the line of its closing
marker. -/
def crowdedText : String :=
  "keep();// >>> AI-NATIVE ROUTES START\nold();\n// >>> AI-NATIVE ROUTES END// tail\n"

/-- The section in it is replaced with its lines. -/
theorem keeps_mergeAfter_crowded :
    Markers.routes ∈ [Markers.routes, Markers.seeders] ∧ ∃ before blanks after,
    Frames .routes none "" crowdedText.toList .replaced before blanks after ∧
      (mergeAfter .routes ["new();"] none "" crowdedText).2 =
        String.ofList before ++ wrap .routes ["new();"] blanks ++ String.ofList after := by
  have isReplaced : (mergeAfter .routes ["new();"] none "" crowdedText).1 = .replaced := by
    decide +kernel
  have known : Markers.routes ∈ [Markers.routes, Markers.seeders] := by decide
  obtain ⟨before, blanks, after, frames, eq⟩ :=
    keeps_mergeAfter known ["new();"] none "" crowdedText
  exact ⟨known, before, blanks, after, isReplaced ▸ frames, eq⟩

/-- What stands beside the markers on their lines is lost, so a merge does not keep all that is
outside them. -/
theorem crowded_line_lost : ¬ ∀ (markers : Markers) (body : List String) (text : String),
    markers ∈ [Markers.routes, Markers.seeders] →
    (mergeAfter markers body none "" text).1 = .replaced →
      ∃ before blanks middle after : List Char, AreBlanks blanks ∧
        text.toList = before ++
          (blanks ++ markers.opening.toList ++ middle ++ markers.closing.toList) ++ after ∧
        ∃ indent, (mergeAfter markers body none "" text).2 =
          String.ofList before ++ wrap markers body indent ++ String.ofList after := by
  intro claimed
  have isReplaced : (mergeAfter .routes ["new();"] none "" crowdedText).1 = .replaced := by
    decide +kernel
  obtain ⟨before, blanks, middle, after, blank, text_eq, indent, eq⟩ :=
    claimed .routes ["new();"] crowdedText (by decide) isReplaced
  have gone : 'k' ∉ (mergeAfter .routes ["new();"] none "" crowdedText).2.toList := by
    decide +kernel
  have first : crowdedText.toList.head? = some 'k' := by decide
  -- the first character stands before the stretch, since neither blanks nor a marker begin with it
  rw [text_eq] at first
  rw [eq, String.toList_append, String.toList_append, String.toList_ofList] at gone
  cases before with
  | cons c before =>
    obtain rfl := Option.some.inj first
    exact gone (by simp)
  | nil =>
    cases blanks with
    | cons c blanks =>
      obtain rfl := Option.some.inj first
      exact absurd (blank 'k' (List.mem_cons_self ..)) (by decide)
    | nil => exact absurd (Option.some.inj first) (by decide)

theorem indentOf_blanks {blanks : String} (h : AreBlanks blanks.toList) :
    indentOf blanks.toList = blanks := by
  have all : ∀ text, AreBlanks text → text.takeWhile (fun c => c = ' ' || c = '\t') = text := by
    intro text
    induction text with
    | nil => exact fun _ => rfl
    | cons c text ih =>
      intro blank
      have first : (decide (c = ' ') || decide (c = '\t')) = true := by
        simpa using blank c (List.mem_cons_self ..)
      rw [@List.takeWhile_cons_of_pos _ (fun c => c = ' ' || c = '\t') c text first,
        ih fun d mem => blank d (List.mem_cons_of_mem c mem)]
  rw [indentOf, all _ h, String.ofList_toList]

theorem mergeAfter_of_replace? {text replaced : String} {body : List String}
    (h : replace? markers body text = some replaced)
    (place : Option Nat) (indent : String) :
    mergeAfter markers body place indent text = (.replaced, replaced) := by
  simp only [mergeAfter, h]

/-- A section that is found where it was put is replaced there. -/
theorem replace?_wrap {before after : List Char} {blanks text : String} {first : List String}
    (apart : markers.AreApart) (blank : AreBlanks blanks.toList)
    (text_eq : text.toList = before ++ (wrap markers first blanks).toList ++ after)
    (found : findIn? markers text.toList = some (before.length,
      (before ++ (wrap markers first blanks).toList).length))
    (body : List String) :
    replace? markers body text = some (String.ofList before ++ wrap markers body blanks ++
      String.ofList after) := by
  have isBefore : text.toList.take before.length = before := by
    rw [text_eq, List.append_assoc, List.take_left]
  have isAfter :
      text.toList.drop (before ++ (wrap markers first blanks).toList).length = after := by
    rw [text_eq, List.drop_left]
  have isBlanks : indentOf (text.toList.drop before.length) = blanks := by
    rw [text_eq, List.append_assoc, List.drop_left, toList_wrap]
    simp only [List.append_assoc]
    rw [indentOf_append _ apart.opening, indentOf_blanks blank]
  simp only [replace?, found, isBefore, isAfter, isBlanks, bind, Option.bind_some, pure]

variable {first second : List String} {indent : String}

/-- The last merge wins: it replaces what an earlier one put in, gives what it would have given
without that, and the section that is found then is its own, at the indentation of the section. -/
theorem mergeAfter_mergeAfter (h : markers ∈ [Markers.routes, Markers.seeders])
    (blank : AreBlanks indent.toList) (free : markers.AreFree first)
    (free' : markers.AreFree second) (place : Option Nat) (text : String) :
    (∀ again other,
      mergeAfter markers second again other (mergeAfter markers first place indent text).2 =
        (.replaced, (mergeAfter markers second place indent text).2)) ∧
    ∃ before blanks after,
      Frames markers place indent text.toList (mergeAfter markers second place indent text).1
        before blanks after ∧
      (mergeAfter markers second place indent text).2 =
        String.ofList before ++ wrap markers second blanks ++ String.ofList after ∧
      find? markers (mergeAfter markers second place indent text).2 =
        some (before.length, before.length + (wrap markers second blanks).length) := by
  have apart := Markers.areApart_of_mem h
  obtain ⟨outcome, before, blanks, after, frames, eq⟩ := frames_mergeAfter apart place indent text
  obtain ⟨whole, unpaired, follows⟩ := frames.fit apart
  have areBlanks := frames.areBlanks blank
  have found : ∀ body, markers.AreFree body →
      findIn? markers (mergeAfter markers body place indent text).2.toList =
      some (before.length, (before ++ (wrap markers body blanks).toList).length) := by
    intro body free
    rw [eq, toList_append_section, findIn?_wrap apart whole unpaired areBlanks free follows]
  refine ⟨fun again other => ?_, before, blanks, after, by rwa [eq], by rw [eq], ?_⟩
  · have text_eq : (mergeAfter markers first place indent text).2.toList = before ++
        (wrap markers first blanks).toList ++ after := by
      rw [eq, toList_append_section]
    rw [mergeAfter_of_replace? (replace?_wrap apart areBlanks text_eq (found first free) second),
      eq]
  · rw [find?, found second free', List.length_append, String.length_toList]

/-- A text whose section somebody has opened and not closed, with a line of their own behind it. -/
def danglingText : String := "<?php\n\n// >>> AI-NATIVE ROUTES START\nmine();\n"

/-- The section comes to the end of it, and the next one is put in the place of that, not in the
place of the line. -/
theorem mergeAfter_mergeAfter_dangling :
      (Markers.routes ∈ [Markers.routes, Markers.seeders] ∧ AreBlanks "".toList ∧
        Markers.routes.AreFree ["generated();"] ∧ Markers.routes.AreFree ["again();"]) ∧
    mergeAfter .routes ["again();"] none ""
      (mergeAfter .routes ["generated();"] none "" danglingText).2 =
      (.replaced, (mergeAfter .routes ["again();"] none "" danglingText).2) := by
  have known : Markers.routes ∈ [Markers.routes, Markers.seeders] := by decide
  have blank : AreBlanks "".toList := fun c mem => absurd mem List.not_mem_nil
  have free : Markers.routes.AreFree ["generated();"] := ⟨by decide +kernel, by decide +kernel⟩
  have free' : Markers.routes.AreFree ["again();"] := ⟨by decide +kernel, by decide +kernel⟩
  exact ⟨⟨known, blank, free, free'⟩,
    (mergeAfter_mergeAfter known blank free free' none danglingText).1 none ""⟩

end Section
end Scaffold
