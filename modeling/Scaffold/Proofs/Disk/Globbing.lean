import Scaffold.Disk.Glob
import Scaffold.Proofs.Disk.Places
import Scaffold.Proofs.Outcomes
import Scaffold.Proofs.Sorting

/-!
# Files found by a pattern

A search by pattern finds files only, and names each by its way from the directory in which it
starts. It fails for one reason, a path that is too long. What one step of it does is `Disk.Goes`:
what is found comes from a place to which the step goes, and no such place is left out.
-/

namespace Scaffold
set_option autoImplicit false

namespace Glob

/-- The steps of a normal pattern are those of its names. -/
theorem ofText_of_normal {text : String} (normal : Path.IsNormal text) :
    ofText text = ((Text.split '/' text).mapM stepOf).map fun steps =>
      ⟨steps, Text.endsWith "/" text⟩ := by
  have written : text.isEmpty = false := by
    rw [Bool.eq_false_iff, ne_eq, String.isEmpty_iff]
    rintro rfl
    exact (normal "" (by decide)).1 rfl
  have named : (Text.split '/' text).isEmpty = false := by
    rw [Bool.eq_false_iff, ne_eq, List.isEmpty_iff, Text.split, List.map_eq_nil_iff]
    exact Chars.split_ne_nil '/' text.toList
  have relative : (!"".isEmpty) = false := rfl
  simp only [ofText, written, Path.ofText_of_normal normal, Path.isAbsolute, named, relative,
    Bool.false_eq_true, if_false]
  cases (Text.split '/' text).mapM stepOf <;> rfl

theorem stepOf_eq_name {text name : String} (h : stepOf text = .ok (.name name)) : name = text := by
  unfold stepOf at h
  split at h
  · cases h
  · split at h
    · cases h
    · split at h
      · cases h
      · cases h
        rfl

theorem stepOf_error {text : String} {e : Invalid} (h : stepOf text = .error e) :
    e = .depthInName := by
  unfold stepOf at h
  split at h
  · cases h
  · split at h
    · exact (Except.error.inj h).symm
    · split at h <;> cases h

/-- A name without a character that means more stands for itself. -/
theorem stepOf_of_plain {name : String} (whole : Text.has "**" name = false)
    (plain : Pattern.isPattern name = false) : stepOf name = .ok (.name name) := by
  have apart : name ≠ "**" := by
    rintro rfl
    exact absurd plain (by decide)
  simp [stepOf, apart, whole, plain]

theorem mapM_stepOf_append {front back : List String}
    (plain : ∀ name ∈ front, Text.has "**" name = false ∧ Pattern.isPattern name = false)
    {steps : List GlobStep} (h : (front ++ back).mapM stepOf = .ok steps) :
    ∃ rest, back.mapM stepOf = .ok rest ∧ steps = front.map .name ++ rest := by
  induction front generalizing steps with
  | nil => exact ⟨steps, h, rfl⟩
  | cons name front ih =>
    obtain ⟨first, others⟩ := List.forall_mem_cons.1 plain
    obtain ⟨step, more, here, there, rfl⟩ := List.forall₂_cons_left_iff.1 (mapM_eq_ok.1 h)
    obtain ⟨rest, further, rfl⟩ := ih others (mapM_eq_ok.2 there)
    obtain rfl := Except.ok.inj ((stepOf_of_plain first.1 first.2).symm.trans here)
    exact ⟨rest, further, rfl⟩

/-- Names in front that stand for themselves are the first steps of a pattern. -/
theorem steps_of_ofText {text : String} {pattern : Glob} (h : ofText text = .ok pattern)
    {front back : List String} (names : (Path.ofText text).names = front ++ back)
    (plain : ∀ name ∈ front, Text.has "**" name = false ∧ Pattern.isPattern name = false) :
    ∃ rest, back.mapM stepOf = .ok rest ∧ pattern.steps = front.map .name ++ rest := by
  simp only [ofText, bind, Except.bind, pure, Except.pure] at h
  split at h
  · cases h
  · split at h
    · cases h
    · split at h
      · cases h
      · cases steps : (Path.ofText text).names.mapM stepOf with
        | error e => simp [steps] at h
        | ok found =>
          obtain ⟨rest, further, rfl⟩ := mapM_stepOf_append plain (names ▸ steps)
          simp only [steps] at h
          obtain rfl := Except.ok.inj h
          exact ⟨rest, further, rfl⟩

/-- A name with a character that means more stands for the names that fit it. -/
theorem stepOf_of_isPattern {name : String} {step : GlobStep} (more : Pattern.isPattern name = true)
    (apart : name ≠ "**") (h : stepOf name = .ok step) :
    step = .fitting (Pattern.parts name.toList) := by
  simp only [stepOf, if_neg apart, more, if_true] at h
  split at h
  · cases h
  · exact (Except.ok.inj h).symm

/-- A normal pattern is one for files, unless a name of it holds `**` and more. -/
theorem ofText_cases {text : String} (normal : Path.IsNormal text) :
    ofText text = .error .depthInName ∨
      ∃ pattern, ofText text = .ok pattern ∧ ∀ name, GlobStep.name name ∈ pattern.steps →
      name ≠ ".." := by
  rw [ofText_of_normal normal]
  cases steps : (Text.split '/' text).mapM stepOf with
  | error e =>
    obtain ⟨name, -, wrong⟩ := exists_of_mapM_error steps
    obtain rfl := stepOf_error wrong
    exact .inl rfl
  | ok steps' =>
    refine .inr ⟨_, rfl, fun name mem => ?_⟩
    obtain ⟨text, isIn, eq⟩ := exists_of_mapM_ok steps mem
    obtain rfl := stepOf_eq_name eq
    exact (normal name isIn).2.2

end Glob

namespace Disk

/-- The names with which a directory below is listed lead to it. -/
theorem place_of_mem_directoriesFrom {disk : Disk} {place below : Place} {names : List String}
    (h : (below, names) ∈ disk.directoriesFrom place) : below = names.reverse ++ place := by
  rcases mem_directoriesFrom.1 h with eq | mem
  · obtain ⟨rfl, rfl⟩ := Prod.mk.inj eq
    rfl
  · obtain ⟨⟨p, entry⟩, -, found⟩ := List.mem_filterMap.1 mem
    dsimp only at found
    split at found
    · rename_i fits
      obtain ⟨rfl, rfl⟩ := Prod.mk.inj (Option.some.inj found)
      have suffix : place <:+ p := by simp_all
      obtain ⟨front, rfl⟩ := suffix
      simp
    · cases found

theorem mem_children {disk : Disk} {place : Place} {name : String} :
    name ∈ disk.children place ↔ (disk.get? (name :: place)).isSome := by
  rw [children, List.mem_filterMap]
  constructor
  · rintro ⟨⟨p, entry⟩, mem, found⟩
    cases p with
    | nil => cases found
    | cons first above =>
      dsimp only at found
      split at found
      · rename_i same
        obtain rfl := Option.some.inj found
        subst same
        rw [(get?_eq_some (by simp)).2 (List.mem_reverse.1 mem)]
        rfl
      · cases found
  · intro held
    obtain ⟨entry, held⟩ := Option.isSome_iff_exists.1 held
    exact ⟨(name :: place, entry), List.mem_reverse.2 ((get?_eq_some (by simp)).1 held), by simp⟩

/-- Whether a search goes on at a place: there is something if the step was the last one to a file,
or else a directory. -/
def leadsOn (disk : Disk) (last : Bool) (place : Place) : Bool :=
  if last then (disk.get? place).isSome else disk.isDirectory place

/-- A step of a search: the place from which it goes on, and the names that lead there. -/
inductive Goes (disk : Disk) (last : Bool) (place : Place) :
    GlobStep → Place → List String → Prop where
  | name (text : String)
      (held : disk.leadsOn last (if text = ".." then place.tail else text :: place) = true) :
      Goes disk last place (.name text) (if text = ".." then place.tail else text :: place) [text]
  | fitting {pattern : Pattern} (text : String)
      (fits : Pattern.recognizes pattern text.toList = true)
      (held : disk.leadsOn last (text :: place) = true) :
      Goes disk last place (.fitting pattern) (text :: place) [text]
  | anyDepth (below : Place) (between : List String)
      (isBelow : (below, between) ∈ disk.directoriesFrom place) :
      Goes disk last place .anyDepth below between

section Select

variable {disk : Disk} {root : Path} {directories last : Bool} {step : GlobStep}
  {steps rest : List GlobStep} {place next : Place} {shown between names : List String}
  {found : List (List String)}

theorem isSome_of_leadsOn (h : disk.leadsOn last place = true) : (disk.get? place).isSome := by
  cases last with
  | true => exact h
  | false =>
    rw [isDirectory_iff.1 h]
    rfl

theorem leadsOn_of_isSome (held : (disk.get? place).isSome) :
    disk.leadsOn last place = (last || disk.isDirectory place) := by
  cases last with
  | true => exact held
  | false => rfl

/-- A step that does not lead up goes on below. -/
theorem Goes.below (goes : disk.Goes last place step next between) (straight : step ≠ .name "..") :
    next = between.reverse ++ place := by
  cases goes with
  | name text held => exact if_neg fun up => straight (congrArg GlobStep.name up)
  | fitting text fits held => rfl
  | anyDepth below between isBelow => exact place_of_mem_directoriesFrom isBelow

theorem select_name (text : String) :
    disk.select root directories (.name text :: rest) place shown =
    if isTooLong text || isTooLongPath (root.extend (shown ++ [text])).text then
      .error (.refused .nameTooLong (root.extend (shown ++ [text])).text)
    else if disk.leadsOn (rest.isEmpty && !directories) (if text = ".." then place.tail
      else text :: place) then
      disk.select root directories rest (if text = ".." then place.tail else text :: place)
        (shown ++ [text])
    else .ok [] :=
  rfl

/-- What is found comes from a place to which the first step goes. -/
theorem exists_goes_of_mem_select
    (h : disk.select root directories (step :: rest) place shown = .ok found)
    (mem : names ∈ found) :
    ∃ next between inner, disk.Goes (rest.isEmpty && !directories) place step next between ∧
      disk.select root directories rest next (shown ++ between) = .ok inner ∧ names ∈ inner := by
  cases step with
  | name text =>
    rw [select_name] at h
    split at h
    · cases h
    · by_cases held : disk.leadsOn (rest.isEmpty && !directories) (if text = ".." then place.tail
        else text :: place) = true
      · rw [if_pos held] at h
        exact ⟨_, _, found, .name text held, h, mem⟩
      · rw [if_neg held] at h
        obtain rfl := Except.ok.inj h
        exact absurd mem List.not_mem_nil
  | fitting pattern =>
    simp only [select] at h
    obtain ⟨lists, all, rfl⟩ := map_eq_ok.1 h
    obtain ⟨inner, isIn, mem⟩ := List.mem_flatten.1 mem
    obtain ⟨text, among, selected⟩ := exists_of_mapM_ok all isIn
    obtain ⟨listed, fits⟩ := List.mem_filter.1 among
    rw [← leadsOn_of_isSome (mem_children.1 listed), Bool.and_eq_true] at fits
    exact ⟨_, _, inner, .fitting text fits.1 fits.2, selected, mem⟩
  | anyDepth =>
    simp only [select] at h
    obtain ⟨lists, all, rfl⟩ := map_eq_ok.1 h
    obtain ⟨inner, isIn, mem⟩ := List.mem_flatten.1 mem
    obtain ⟨⟨below, between⟩, isBelow, selected⟩ := exists_of_mapM_ok all isIn
    exact ⟨below, between, inner, .anyDepth below between isBelow, selected, mem⟩

/-- From every place to which the first step goes the search goes on, and leaves out nothing that it
finds there. -/
theorem exists_select_of_goes
    (h : disk.select root directories (step :: rest) place shown = .ok found)
    (goes : disk.Goes (rest.isEmpty && !directories) place step next between) :
    ∃ inner, disk.select root directories rest next (shown ++ between) = .ok inner ∧
    inner ⊆ found := by
  cases goes with
  | name text held =>
    rw [select_name, if_pos held] at h
    split at h
    · cases h
    · exact ⟨found, h, List.Subset.refl _⟩
  | @fitting pattern text fits held =>
    simp only [select] at h
    obtain ⟨lists, all, rfl⟩ := map_eq_ok.1 h
    have there := isSome_of_leadsOn held
    have among : text ∈ (disk.children place).filter fun name =>
        Pattern.recognizes pattern name.toList &&
        ((rest.isEmpty && !directories) || disk.isDirectory (name :: place)) := by
      rw [List.mem_filter, ← leadsOn_of_isSome there, Bool.and_eq_true]
      exact ⟨mem_children.2 there, fits, held⟩
    obtain ⟨inner, isIn, selected⟩ := exists_of_mem_mapM among all
    exact ⟨inner, selected, fun names mem => List.mem_flatten.2 ⟨inner, isIn, mem⟩⟩
  | anyDepth below between isBelow =>
    simp only [select] at h
    obtain ⟨lists, all, rfl⟩ := map_eq_ok.1 h
    obtain ⟨inner, isIn, selected⟩ := exists_of_mem_mapM isBelow all
    exact ⟨inner, selected, fun names mem => List.mem_flatten.2 ⟨inner, isIn, mem⟩⟩

/-- The steps of a pattern that do not lead up find files, each below the place where they start. -/
theorem select_sound (down : ∀ name, GlobStep.name name ∈ steps → name ≠ "..")
    (h : disk.select root directories steps place shown = .ok found) (mem : names ∈ found) :
    ∃ more, names = shown ++ more ∧ disk.isFile (more.reverse ++ place) := by
  induction steps generalizing place shown found with
  | nil =>
    obtain rfl := Except.ok.inj h
    split at mem
    · rename_i file
      obtain rfl := List.mem_singleton.1 mem
      exact ⟨[], by simp, file⟩
    · exact absurd mem List.not_mem_nil
  | cons step rest ih =>
    obtain ⟨next, between, inner, goes, selected, mem⟩ := exists_goes_of_mem_select h mem
    obtain ⟨more, rfl, file⟩ :=
      ih (fun name mem => down name (List.mem_cons_of_mem step mem)) selected mem
    have straight : step ≠ .name ".." := by
      rintro rfl
      exact down ".." (List.mem_cons_self ..) rfl
    obtain rfl := goes.below straight
    exact ⟨between ++ more, by simp, by simpa using file⟩

/-- A search adds to the names that it has. -/
theorem prefix_of_select (h : disk.select root directories steps place shown = .ok found)
    (mem : names ∈ found) : shown <+: names := by
  induction steps generalizing place shown found with
  | nil =>
    obtain rfl := Except.ok.inj h
    split at mem
    · obtain rfl := List.mem_singleton.1 mem
      exact List.prefix_rfl
    · exact absurd mem List.not_mem_nil
  | cons step rest ih =>
    obtain ⟨next, between, inner, -, selected, mem⟩ := exists_goes_of_mem_select h mem
    exact (List.prefix_append ..).trans (ih selected mem)

/-- Steps that are names lead every search the same way. -/
theorem select_names {front : List String}
    (h : disk.select root directories (front.map .name ++ rest) place shown = .ok found)
    (mem : names ∈ found) :
    ∃ below, ∃ found, disk.select root directories rest below (shown ++ front) = .ok found ∧
    names ∈ found := by
  induction front generalizing place shown found with
  | nil =>
    rw [List.append_nil]
    exact ⟨place, found, h, mem⟩
  | cons name front ih =>
    obtain ⟨next, between, inner, goes, selected, mem⟩ := exists_goes_of_mem_select h mem
    cases goes
    simpa using ih selected mem

/-- The names that fit the last step. -/
theorem select_fitting {pattern : Pattern}
    (h : disk.select root directories [.fitting pattern] place shown = .ok found)
    (mem : names ∈ found) : ∃ name : String, Pattern.recognizes pattern name.toList = true ∧
    names = shown ++ [name] := by
  obtain ⟨next, between, inner, goes, selected, mem⟩ := exists_goes_of_mem_select h mem
  cases goes with
  | fitting name fits held =>
    obtain rfl := Except.ok.inj selected
    refine ⟨name, fits, ?_⟩
    split at mem
    · exact List.mem_singleton.1 mem
    · exact absurd mem List.not_mem_nil

end Select

/-- A found path is one that the steps select. -/
theorem select_of_mem_glob {disk : Disk} {root : Path} {pattern : Glob} {found : List String}
    (h : disk.glob root pattern = .ok found) {path : String} (mem : path ∈ found) :
    ∃ place lists names, disk.locate root = .ok place ∧
      disk.select root pattern.directories pattern.steps place [] = .ok lists ∧ names ∈ lists ∧
      path = Text.join "/" names := by
  unfold glob at h
  split at h
  · rename_i place located
    split at h
    · obtain ⟨lists, selected, rfl⟩ := map_eq_ok.1 h
      obtain ⟨names, isIn, rfl⟩ := List.mem_map.1 (mem_distinctSorted.1 mem)
      exact ⟨place, lists, names, located, selected, isIn, rfl⟩
    · obtain rfl := Except.ok.inj h
      exact absurd mem List.not_mem_nil
  · cases h
  · obtain rfl := Except.ok.inj h
    exact absurd mem List.not_mem_nil

/-- A found path begins with the names with which its pattern begins. -/
theorem exists_of_mem_glob {disk : Disk} {root : Path} {pattern : Glob} {front : List String}
    {rest : List GlobStep} (steps : pattern.steps = front.map .name ++ rest) {found : List String}
    (h : disk.glob root pattern = .ok found)
    {path : String} (mem : path ∈ found) : ∃ more, path = Text.join "/" (front ++ more) := by
  obtain ⟨place, lists, names, -, selected, isIn, rfl⟩ := select_of_mem_glob h mem
  rw [steps] at selected
  obtain ⟨below, others, further, isIn⟩ := select_names selected isIn
  obtain ⟨more, rfl⟩ := prefix_of_select further isIn
  exact ⟨more, rfl⟩

/-- A path that is found by names and one pattern ends with a name that fits it. -/
theorem exists_of_mem_glob_fitting {disk : Disk} {root : Path} {pattern : Glob}
    {front : List String} {last : Pattern}
    (steps : pattern.steps = front.map .name ++ [.fitting last]) {found : List String}
    (h : disk.glob root pattern = .ok found) {path : String} (mem : path ∈ found) :
    ∃ name : String, Pattern.recognizes last name.toList = true ∧
    path = Text.join "/" (front ++ [name]) := by
  obtain ⟨place, lists, names, -, selected, isIn, rfl⟩ := select_of_mem_glob h mem
  rw [steps] at selected
  obtain ⟨below, others, further, isIn⟩ := select_names selected isIn
  obtain ⟨name, fits, rfl⟩ := select_fitting further isIn
  exact ⟨name, fits, rfl⟩

/-- The search fails only where a path is too long. -/
theorem select_error {disk : Disk} {root : Path} {directories : Bool} {steps : List GlobStep}
    {place : Place} {shown : List String} {e : DiskError}
    (h : disk.select root directories steps place shown = .error e) :
    ∃ text, e = .refused .nameTooLong text := by
  induction steps generalizing place shown with
  | nil => cases h
  | cons step rest ih =>
    cases step with
    | name name =>
      simp only [select] at h
      split at h
      · exact ⟨_, (Except.error.inj h).symm⟩
      · generalize (if name = ".." then place.tail else name :: place) = next at h
        split at h
        all_goals split at h
        · exact ih h
        · cases h
        · exact ih h
        · cases h
    | fitting pattern =>
      simp only [select] at h
      obtain ⟨name, -, h⟩ := exists_of_mapM_error (map_eq_error.1 h)
      exact ih h
    | anyDepth =>
      simp only [select] at h
      obtain ⟨⟨below, between⟩, -, h⟩ := exists_of_mapM_error (map_eq_error.1 h)
      exact ih h

theorem isSome_of_isFile {disk : Disk} {place : Place} (h : disk.isFile place) :
    (disk.get? place).isSome := by
  unfold isFile at h
  split at h <;> simp_all

/-- A file has names all the way from a directory above it. -/
theorem names_of_isFile {disk : Disk} {names : List String} {above : Place}
    (h : disk.isFile (names.reverse ++ above)) : ∀ name ∈ names, isName name := by
  intro name mem
  exact names_of_get? (isSome_of_isFile h) name (by simp [mem])

/-- Each path that a pattern finds is normal, and names a file below the directory of the search. -/
theorem glob_sound {disk : Disk} {root : Path} {pattern : Glob}
    (down : ∀ name, GlobStep.name name ∈ pattern.steps → name ≠ "..") {found : List String}
    (h : disk.glob root pattern = .ok found) {path : String} (mem : path ∈ found) :
    Path.IsNormal path ∧ ∃ above, disk.locate root = .ok above ∧
      disk.isFile ((Text.split '/' path).reverse ++ above) := by
  unfold glob at h
  split at h
  · rename_i above located
    split at h
    · rename_i directory
      obtain ⟨lists, selected, rfl⟩ := map_eq_ok.1 h
      obtain ⟨names, isIn, rfl⟩ := List.mem_map.1 (mem_distinctSorted.1 mem)
      obtain ⟨more, eq, file⟩ := select_sound down selected isIn
      obtain rfl : names = more := eq
      have filled : names ≠ [] := by
        rintro rfl
        exact not_isDirectory_of_isFile file directory
      obtain ⟨normal, split⟩ := Path.normal_join filled (names_of_isFile file)
      exact ⟨normal, above, located, split.symm ▸ file⟩
    · obtain rfl := Except.ok.inj h
      exact absurd mem List.not_mem_nil
  · cases h
  · obtain rfl := Except.ok.inj h
    exact absurd mem List.not_mem_nil

theorem glob_error {disk : Disk} {root : Path} {pattern : Glob} {e : DiskError}
    (h : disk.glob root pattern = .error e) : ∃ text, e = .refused .nameTooLong text := by
  unfold glob at h
  split at h
  · split at h
    · exact select_error (map_eq_error.1 h)
    · cases h
  · exact ⟨_, (Except.error.inj h).symm⟩
  · cases h

/-- What is found is listed in order. -/
theorem pairwise_glob {disk : Disk} {root : Path} {pattern : Glob} {found : List String}
    (h : disk.glob root pattern = .ok found) : found.Pairwise (· < ·) := by
  unfold glob at h
  split at h
  · split at h
    · obtain ⟨lists, -, rfl⟩ := map_eq_ok.1 h
      exact pairwise_distinctSorted _
    · obtain rfl := Except.ok.inj h
      exact .nil
  · cases h
  · obtain rfl := Except.ok.inj h
    exact .nil

theorem nodup_glob {disk : Disk} {root : Path} {pattern : Glob} {found : List String}
    (h : disk.glob root pattern = .ok found) : found.Nodup := by
  unfold glob at h
  split at h
  · split at h
    · obtain ⟨lists, -, rfl⟩ := map_eq_ok.1 h
      exact nodup_distinctSorted _
    · obtain rfl := Except.ok.inj h
      exact List.nodup_nil
  · cases h
  · obtain rfl := Except.ok.inj h
    exact List.nodup_nil

end Disk
end Scaffold
