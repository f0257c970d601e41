import Scaffold.Text

/-!
# Pieces of a text

Cutting a text at its slashes and joining the pieces again are inverse to each other; so are joining
pieces with any other character between them and cutting there. A text is cut in two at the first
separator.
-/

namespace Scaffold
set_option autoImplicit false

theorem Chars.split_eq_splitOn (sep : Char) (text : List Char) :
    Chars.split sep text = text.splitOn sep := by
  induction text with
  | nil => rfl
  | cons c rest ih =>
    rw [List.splitOn_eq_splitOnP] at ih ⊢
    simp only [Chars.split, List.splitOnP_cons_eq_if_modifyHead, beq_iff_eq, ← ih]
    split
    · rfl
    · cases pieces : Chars.split sep rest with
      | nil => exact absurd pieces (Chars.split_ne_nil sep rest)
      | cons piece pieces => rfl

theorem Chars.not_mem_of_mem_split {sep : Char} {text piece : List Char}
    (h : piece ∈ Chars.split sep text) : sep ∉ piece := by
  induction text generalizing piece with
  | nil => simp_all [Chars.split]
  | cons c rest ih =>
    simp only [Chars.split] at h
    split at h
    · rcases List.mem_cons.1 h with rfl | h
      · exact List.not_mem_nil
      · exact ih h
    · rename_i apart
      split at h
      · simp_all [Ne.symm]
      · rename_i first others eq
        rcases List.mem_cons.1 h with rfl | h
        · have clear : sep ∉ first := ih (eq ▸ List.mem_cons_self ..)
          simp [clear, Ne.symm apart]
        · exact ih (eq ▸ List.mem_cons_of_mem _ h)

theorem Chars.split_append (sep : Char) (front back : List Char) :
    Chars.split sep (front ++ sep :: back) = Chars.split sep front ++ Chars.split sep back := by
  induction front with
  | nil => simp [Chars.split]
  | cons c rest ih =>
    simp only [List.cons_append, Chars.split]
    split
    · rw [ih, List.cons_append]
    · rw [ih]
      cases pieces : Chars.split sep rest with
      | nil => exact absurd pieces (Chars.split_ne_nil sep rest)
      | cons piece pieces => rfl

theorem Chars.mem_of_mem_split {sep : Char} {text piece : List Char}
    (h : piece ∈ Chars.split sep text) : ∀ c ∈ piece, c ∈ text := by
  induction text generalizing piece with
  | nil =>
    obtain rfl := List.mem_singleton.1 h
    exact fun _ => id
  | cons d text ih =>
    intro c mem
    simp only [Chars.split] at h
    split at h
    · rcases List.mem_cons.1 h with rfl | h
      · exact absurd mem List.not_mem_nil
      · exact List.mem_cons_of_mem d (ih h c mem)
    · cases pieces : Chars.split sep text with
      | nil => exact absurd pieces (Chars.split_ne_nil sep text)
      | cons first rest =>
        rw [pieces] at h ih
        rcases List.mem_cons.1 h with rfl | h
        · rcases List.mem_cons.1 mem with rfl | mem
          · exact List.mem_cons_self ..
          · exact List.mem_cons_of_mem d (ih (List.mem_cons_self ..) c mem)
        · exact List.mem_cons_of_mem d (ih (List.mem_cons_of_mem first h) c mem)

/-- Every other character of a text is in one of its pieces. -/
theorem Chars.exists_mem_split {sep c : Char} (other : c ≠ sep) {text : List Char}
    (mem : c ∈ text) : ∃ piece ∈ Chars.split sep text, c ∈ piece := by
  induction text with
  | nil => exact absurd mem List.not_mem_nil
  | cons d text ih =>
    simp only [Chars.split]
    split
    · rename_i isSep
      obtain ⟨piece, isPiece, mem⟩ :=
        ih (List.mem_of_ne_of_mem (fun same => other (same.trans isSep)) mem)
      exact ⟨piece, List.mem_cons_of_mem [] isPiece, mem⟩
    · cases pieces : Chars.split sep text with
      | nil => exact absurd pieces (Chars.split_ne_nil sep text)
      | cons first rest =>
        rw [pieces] at ih
        rcases List.mem_cons.1 mem with rfl | mem
        · exact ⟨_, List.mem_cons_self .., List.mem_cons_self ..⟩
        · obtain ⟨piece, isPiece, mem⟩ := ih mem
          rcases List.mem_cons.1 isPiece with rfl | isPiece
          · exact ⟨_, List.mem_cons_self .., List.mem_cons_of_mem d mem⟩
          · exact ⟨piece, List.mem_cons_of_mem _ isPiece, mem⟩

/-- Characters in front of a text belong to its first piece. -/
theorem Chars.split_append_of_not_mem {sep : Char} {front : List Char} (clear : sep ∉ front)
    {text head : List Char} {rest : List (List Char)} (h : Chars.split sep text = head :: rest) :
    Chars.split sep (front ++ text) = (front ++ head) :: rest := by
  induction front with
  | nil => exact h
  | cons c front ih =>
    rw [List.mem_cons, not_or] at clear
    simp only [List.cons_append, Chars.split, if_neg (Ne.symm clear.1), ih clear.2]

theorem Chars.cut?_append {sep : Char} {left : List Char} (clear : sep ∉ left) (right : List Char) :
    Chars.cut? sep (left ++ sep :: right) = some (left, right) := by
  induction left with
  | nil => simp [Chars.cut?]
  | cons c left ih =>
    rw [List.mem_cons, not_or] at clear
    rw [List.cons_append, Chars.cut?, if_neg (Ne.symm clear.1), ih clear.2]
    rfl

theorem Chars.cut?_eq_none {sep : Char} {text : List Char} :
    Chars.cut? sep text = none ↔ sep ∉ text := by
  induction text with
  | nil => simp [Chars.cut?]
  | cons c text ih =>
    by_cases here : c = sep
    · simp [Chars.cut?, here]
    · simp [Chars.cut?, here, ih, Ne.symm here]

namespace Text

/-- The pieces of two texts with a slash between them. -/
theorem split_append (front back : String) :
    split '/' (front ++ "/" ++ back) = split '/' front ++ split '/' back := by
  have chars : (front ++ "/" ++ back).toList = front.toList ++ '/' :: back.toList := by simp
  rw [split, chars, Chars.split_append, List.map_append]
  rfl

/-- The pieces of a text, joined, are the text. -/
theorem join_split (text : String) : join "/" (split '/' text) = text := by
  have toList : (Chars.split '/' text.toList).map (String.toList ∘ String.ofList) =
      text.toList.splitOn '/' := by
    rw [Chars.split_eq_splitOn]
    have back : String.toList ∘ String.ofList = id := funext fun _ => String.toList_ofList
    rw [back, List.map_id]
  have slash : "/".toList = ['/'] := rfl
  rw [← String.toList_inj, toList_join, split, List.map_map, toList, slash,
    List.intercalate_splitOn]

theorem join_append {front back : List String} (filled : front ≠ []) (more : back ≠ []) :
    join "/" (front ++ back) = join "/" front ++ "/" ++ join "/" back :=
  String.intercalate_append_of_ne_nil filled more

/-- Texts without the character between them, joined, have themselves as their pieces. -/
theorem split_joined {sep : Char} {bar : String} (single : bar.toList = [sep]) {texts : List String}
    (filled : texts ≠ []) (h : ∀ text ∈ texts, sep ∉ text.toList) :
    split sep (join bar texts) = texts := by
  have inner : ∀ chars ∈ texts.map String.toList, sep ∉ chars := by
    intro chars mem
    obtain ⟨text, isText, rfl⟩ := List.mem_map.1 mem
    exact h text isText
  have back : String.ofList ∘ String.toList = id := funext fun _ => String.ofList_toList
  rw [split, toList_join, Chars.split_eq_splitOn, single,
    List.splitOn_intercalate sep inner (by simpa using filled), List.map_map, back, List.map_id]

theorem dropHead?_append (head text : String) : dropHead? head (head ++ text) = some text := by
  rw [dropHead?, String.toList_append, Chars.dropHead?_eq_some.2 rfl, Option.map_some,
    String.ofList_toList]

/-- Texts without slashes, joined, have themselves as their pieces. -/
theorem split_join {names : List String} (filled : names ≠ [])
    (h : ∀ name ∈ names, '/' ∉ name.toList) : split '/' (join "/" names) = names :=
  split_joined rfl filled h

/-- A text without slashes is one piece. -/
theorem split_of_not_mem {text : String} (h : '/' ∉ text.toList) : split '/' text = [text] := by
  have joined : join "/" [text] = text := by simp [join]
  have pieces := split_join (List.cons_ne_nil text []) (by simpa using h)
  rwa [joined] at pieces

/-- The pieces of a text with another one in front: the first piece joins the last one of what is in
front. -/
theorem exists_split_append {text head : String} {rest : List String}
    (pieces : split '/' text = head :: rest) (front : String) : ∃ before last, '/' ∉ last.toList ∧
    split '/' (front ++ text) = before ++ (last ++ head) :: rest ∧
      ('/' ∉ front.toList → before = [] ∧ last = front) := by
  have whole (last : String) (clear : '/' ∉ last.toList) :
      split '/' (last ++ text) = (last ++ head) :: rest := by
    obtain ⟨first, others, cut, rfl, rfl⟩ := List.map_eq_cons_iff.1 pieces
    rw [split, String.toList_append, Chars.split_append_of_not_mem clear cut, List.map_cons,
      String.ofList_append, String.ofList_toList]
  by_cases slash : '/' ∈ front.toList
  · -- the last slash of what is in front
    obtain ⟨back, before, chars, clear⟩ := List.eq_append_cons_of_mem (List.mem_reverse.2 slash)
    have cut : front = String.ofList before.reverse ++ "/" ++ String.ofList back.reverse := by
      apply String.toList_inj.1
      rw [← List.reverse_reverse front.toList, chars]
      simp
    refine ⟨split '/' (String.ofList before.reverse), String.ofList back.reverse,
      by simpa using clear, ?_, fun absent => absurd slash absent⟩
    rw [cut, String.append_assoc, split_append, whole _ (by simpa using clear)]
  · exact ⟨[], front, slash, whole front slash, fun _ => ⟨rfl, rfl⟩⟩

theorem not_mem_of_mem_split {sep : Char} {piece text : String} (h : piece ∈ split sep text) :
    sep ∉ piece.toList := by
  obtain ⟨chars, mem, rfl⟩ := List.mem_map.1 h
  rw [String.toList_ofList]
  exact Chars.not_mem_of_mem_split mem

/-- The characters of a piece are characters of the text. -/
theorem mem_of_mem_split {sep c : Char} {piece text : String} (h : piece ∈ split sep text)
    (mem : c ∈ piece.toList) : c ∈ text.toList := by
  obtain ⟨chars, isPiece, rfl⟩ := List.mem_map.1 h
  rw [String.toList_ofList] at mem
  exact Chars.mem_of_mem_split isPiece c mem

/-- Every other character of a text is in one of its pieces. -/
theorem exists_mem_split {sep c : Char} (other : c ≠ sep) {text : String} (mem : c ∈ text.toList) :
    ∃ piece ∈ split sep text, c ∈ piece.toList := by
  obtain ⟨chars, isPiece, mem⟩ := Chars.exists_mem_split other mem
  exact ⟨String.ofList chars, List.mem_map_of_mem isPiece, by rwa [String.toList_ofList]⟩

/-- A text is cut at the first separator. -/
theorem cut?_append {sep : Char} {bar left : String} (single : bar.toList = [sep])
    (clear : sep ∉ left.toList) (right : String) :
    cut? sep (left ++ bar ++ right) = some (left, right) := by
  have chars : (left ++ bar ++ right).toList = left.toList ++ sep :: right.toList := by
    simp [single]
  rw [cut?, chars, Chars.cut?_append clear]
  simp

theorem cut?_eq_none {sep : Char} {text : String} : cut? sep text = none ↔ sep ∉ text.toList := by
  rw [cut?, Option.map_eq_none_iff, Chars.cut?_eq_none]

theorem eq_of_cut? {sep : Char} {text left right : String}
    (h : cut? sep text = some (left, right)) :
    text.toList = left.toList ++ sep :: right.toList ∧ sep ∉ left.toList := by
  obtain ⟨parts, cut, same⟩ := Option.map_eq_some_iff.1 h
  obtain ⟨rfl, rfl⟩ := Prod.mk.inj same
  rw [String.toList_ofList, String.toList_ofList]
  exact Chars.eq_of_cut? cut

end Text
end Scaffold
