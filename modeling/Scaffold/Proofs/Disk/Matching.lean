import Scaffold.Proofs.Disk.Fitting

/-!
# Which files a pattern finds

The steps of a pattern stand for ways of names, whatever is on a disk (`GlobStep.Matches`). A search
finds the files to which such a way leads and no others: `Disk.mem_glob_iff`.
-/

namespace Scaffold
set_option autoImplicit false

/-- The steps of a pattern stand for a way of names. Names that may be anything are those of
directories, so that more has to follow them. -/
inductive GlobStep.Matches : List GlobStep → List String → Prop where
  | nil : Matches [] []
  | name (text : String) {rest : List GlobStep} {names : List String}
      (others : Matches rest names) : Matches (.name text :: rest) (text :: names)
  | fitting {pattern : Pattern} {text : String} {rest : List GlobStep} {names : List String}
      (fits : Pattern.recognizes pattern text.toList = true) (others : Matches rest names) :
      Matches (.fitting pattern :: rest) (text :: names)
  | anyDepth (between : List String) {rest : List GlobStep} {names : List String}
      (more : names ≠ []) (others : Matches rest names) : Matches (.anyDepth :: rest)
      (between ++ names)

namespace GlobStep

variable {rest : List GlobStep} {names : List String}

theorem matches_nil_iff : Matches [] names ↔ names = [] := by
  constructor
  · intro h
    cases h
    rfl
  · rintro rfl
    exact .nil

theorem matches_name_iff {text : String} :
    Matches (.name text :: rest) names ↔ ∃ more, names = text :: more ∧ Matches rest more := by
  constructor
  · intro h
    cases h with
    | name _ others => exact ⟨_, rfl, others⟩
  · rintro ⟨more, rfl, others⟩
    exact .name text others

theorem matches_fitting_iff {pattern : Pattern} : Matches (.fitting pattern :: rest) names ↔
    ∃ text more, names = text :: more ∧ Pattern.recognizes pattern text.toList = true ∧
    Matches rest more := by
  constructor
  · intro h
    cases h with
    | fitting fits others => exact ⟨_, _, rfl, fits, others⟩
  · rintro ⟨text, more, rfl, fits, others⟩
    exact .fitting fits others

theorem matches_names_iff {texts : List String} :
    Matches (texts.map .name) names ↔ names = texts := by
  induction texts generalizing names with
  | nil => exact matches_nil_iff
  | cons text texts ih =>
    rw [List.map_cons, matches_name_iff]
    constructor
    · rintro ⟨more, rfl, others⟩
      rw [ih.1 others]
    · rintro rfl
      exact ⟨texts, rfl, ih.2 rfl⟩

/-- A way has names where there are steps. -/
theorem Matches.eq_nil_iff {steps : List GlobStep} (h : Matches steps names) :
    steps = [] ↔ names = [] := by
  cases h with
  | nil => simp
  | name text others => simp
  | fitting fits others => simp
  | anyDepth between more others => simp [more]

/-- Steps that fit names one by one stand for the way of these names. -/
theorem matches_of_fits {steps : List GlobStep} (fits : List.Forall₂ Fits steps names) :
    Matches steps names := by
  induction fits with
  | nil => exact .nil
  | @cons step name _ _ first _ others =>
    cases step with
    | name text =>
      obtain rfl : text = name := first
      exact .name text others
    | fitting pattern => exact .fitting first others
    | anyDepth => exact first.elim

end GlobStep

namespace Disk

variable {disk : Disk} {place : Place}

theorem not_isFile_of_isDirectory (h : disk.isDirectory place) : ¬ disk.isFile place := fun file =>
  not_isDirectory_of_isFile file h

/-- Every directory below a place is found from it, by the names that lead to it. -/
theorem mem_directoriesFrom_of_isDirectory {names : List String}
    (h : disk.isDirectory (names.reverse ++ place)) :
    (names.reverse ++ place, names) ∈ disk.directoriesFrom place := by
  rw [mem_directoriesFrom]
  by_cases empty : names = []
  · subst empty
    exact .inl rfl
  · right
    have below : names.reverse ++ place ≠ [] := by simpa using fun isNil => absurd isNil empty
    have held := (get?_eq_some below).1 (isDirectory_iff.1 h)
    rw [directoriesBelow, List.mem_filterMap]
    refine ⟨_, held, ?_⟩
    have apart : names.reverse ++ place ≠ place := by simpa using empty
    have suffix : place.isSuffixOf (names.reverse ++ place) = true :=
      List.isSuffixOf_iff_suffix.2 (List.suffix_append ..)
    simp [suffix, apart]

/-- What is found below a place is a directory, if the place is one. -/
theorem isDirectory_of_mem_directoriesFrom {x : Place × List String}
    (above : disk.isDirectory place) (mem : x ∈ disk.directoriesFrom place) :
    disk.isDirectory x.1 := by
  rcases mem_directoriesFrom.1 mem with rfl | below
  · exact above
  · obtain ⟨⟨p, entry⟩, isEntry, made⟩ := List.mem_filterMap.1 below
    dsimp only at made
    split at made
    · rename_i fits
      obtain rfl := Option.some.inj made
      simp only [Bool.and_eq_true, decide_eq_true_eq] at fits
      rw [isDirectory_iff]
      by_cases root : p = []
      · subst root
        rfl
      · rw [get?_eq_some root, ← fits.1.1]
        exact isEntry
    · cases made

/-- A search for files goes on from a place with a file below it, where there is more below it. -/
theorem leadsOn_of_below {names : List String} (h : disk.isFile (names.reverse ++ place))
    {rest : List GlobStep} (others : GlobStep.Matches rest names) :
    disk.leadsOn (rest.isEmpty && !false) place = true := by
  cases rest with
  | nil =>
    obtain rfl := others.eq_nil_iff.1 rfl
    exact isSome_of_isFile h
  | cons step rest =>
    have below : names.reverse ≠ [] := fun absent => by
      simpa using others.eq_nil_iff.2 (List.reverse_eq_nil_iff.1 absent)
    exact isDirectory_of_below below (isSome_of_isFile h)

/-- A step of a search goes to a directory, unless it is the last one and leads to a name. -/
theorem Goes.isDirectory {step : GlobStep} {next : Place} {last : Bool} {between : List String}
    (goes : disk.Goes last place step next between) (above : disk.isDirectory place)
    (further : last = false ∨ step = .anyDepth) :
    disk.isDirectory next := by
  cases goes with
  | name text held =>
    obtain rfl := further.resolve_right (by simp)
    exact held
  | fitting text fits held =>
    obtain rfl := further.resolve_right (by simp)
    exact held
  | anyDepth below between isBelow => exact isDirectory_of_mem_directoriesFrom above isBelow

/-- A step goes the way for which it stands. Where it may go any way, more has to follow. -/
theorem Goes.matches {step : GlobStep} {rest : List GlobStep} {next : Place} {last : Bool}
    {between more : List String} (goes : disk.Goes last place step next between)
    (others : GlobStep.Matches rest more) (filled : step = .anyDepth → more ≠ []) :
    GlobStep.Matches (step :: rest) (between ++ more) := by
  cases goes with
  | name text held => exact .name text others
  | fitting text fits held => exact .fitting fits others
  | anyDepth below between isBelow => exact .anyDepth between (filled rfl) others

/-- A way for which the steps stand begins with one that the first step goes, if it leads to a
file. -/
theorem exists_goes_of_matches {step : GlobStep} {rest : List GlobStep} {names : List String}
    (straight : step ≠ .name "..") (way : GlobStep.Matches (step :: rest) names)
    (file : disk.isFile (names.reverse ++ place)) :
    ∃ next between more, disk.Goes (rest.isEmpty && !false) place step next between ∧
    names = between ++ more ∧
      GlobStep.Matches rest more ∧ disk.isFile (more.reverse ++ next) := by
  cases way with
  | @name text _ more others =>
    have below : disk.isFile (more.reverse ++ text :: place) := by simpa using file
    have next : (if text = ".." then place.tail else text :: place) = text :: place :=
      if_neg fun up => straight (congrArg GlobStep.name up)
    have goes : disk.Goes (rest.isEmpty && !false) place (.name text) _ [text] :=
      .name text (next.symm ▸ leadsOn_of_below below others)
    exact ⟨text :: place, [text], more, next ▸ goes, rfl, others, below⟩
  | @fitting pattern text _ more fits others =>
    have below : disk.isFile (more.reverse ++ text :: place) := by simpa using file
    exact ⟨text :: place, [text], more, .fitting text fits (leadsOn_of_below below others), rfl,
      others, below⟩
  | @anyDepth between _ more some others =>
    rw [List.reverse_append, List.append_assoc] at file
    have directory : disk.isDirectory (between.reverse ++ place) :=
      isDirectory_of_below (by simpa using some) (isSome_of_isFile file)
    exact ⟨_, between, more, .anyDepth _ between (mem_directoriesFrom_of_isDirectory directory),
      rfl, others, file⟩

/-- From a directory the steps lead to the files below it that they stand for. -/
theorem mem_select_iff {root : Path} {steps : List GlobStep}
    (down : ∀ name, GlobStep.name name ∈ steps → name ≠ "..")
    {shown : List String} {found : List (List String)} (above : steps ≠ [] → disk.isDirectory place)
    (h : disk.select root false steps place shown = .ok found) {names : List String} :
    names ∈ found ↔ ∃ more, names = shown ++ more ∧ GlobStep.Matches steps more ∧
    disk.isFile (more.reverse ++ place) := by
  induction steps generalizing place shown found with
  | nil =>
    obtain rfl := Except.ok.inj h
    simp only [GlobStep.matches_nil_iff]
    by_cases file : disk.isFile place = true
    · simp [file]
    · simp [file]
  | cons step rest ih =>
    have further := fun name mem => down name (List.mem_cons_of_mem step mem)
    have directory := above (List.cons_ne_nil _ _)
    have straight : step ≠ .name ".." := by
      rintro rfl
      exact down ".." (List.mem_cons_self ..) rfl
    -- where more steps follow, the next place is a directory
    have open_ {next : Place} {between : List String}
        (goes : disk.Goes (rest.isEmpty && !false) place step next between)
        (filled : rest ≠ []) : disk.isDirectory next :=
          goes.isDirectory directory (.inl (by simp [filled]))
    constructor
    · intro mem
      obtain ⟨next, between, inner, goes, selected, mem⟩ := exists_goes_of_mem_select h mem
      obtain ⟨more, rfl, others, file⟩ := (ih further (open_ goes) selected).1 mem
      have filled : step = .anyDepth → more ≠ [] := by
        rintro any rfl
        exact not_isFile_of_isDirectory (goes.isDirectory directory (.inr any)) file
      have way := goes.matches others filled
      obtain rfl := goes.below straight
      exact ⟨between ++ more, by simp, way, by simpa using file⟩
    · rintro ⟨_, rfl, way, file⟩
      obtain ⟨next, between, more, goes, rfl, others, file⟩ :=
        exists_goes_of_matches straight way file
      obtain ⟨inner, selected, within⟩ := exists_select_of_goes h goes
      exact within ((ih further (open_ goes) selected).2 ⟨more, by simp, others, file⟩)

/-- A search finds the files below its directory to which its pattern leads. -/
theorem mem_glob_iff {root : Path} {pattern : Glob}
    (down : ∀ name, GlobStep.name name ∈ pattern.steps → name ≠ "..")
    (files : pattern.directories = false) {above : Place} (located : disk.locate root = .ok above)
    {found : List String} (h : disk.glob root pattern = .ok found) {path : String} : path ∈ found ↔
      ∃ names, path = Text.join "/" names ∧ names ≠ [] ∧ GlobStep.Matches pattern.steps names ∧
        disk.isFile (names.reverse ++ above) := by
  simp only [glob, located] at h
  by_cases directory : disk.isDirectory above = true
  · rw [if_pos directory, files] at h
    obtain ⟨lists, selected, rfl⟩ := map_eq_ok.1 h
    rw [mem_distinctSorted, List.mem_map]
    simp only [mem_select_iff down (fun _ => directory) selected, List.nil_append]
    constructor
    · rintro ⟨way, ⟨_, rfl, others, file⟩, rfl⟩
      refine ⟨way, rfl, ?_, others, file⟩
      rintro rfl
      exact not_isFile_of_isDirectory directory file
    · rintro ⟨way, rfl, -, others, file⟩
      exact ⟨way, ⟨way, rfl, others, file⟩, rfl⟩
  · rw [if_neg directory] at h
    obtain rfl := Except.ok.inj h
    refine iff_of_false List.not_mem_nil ?_
    rintro ⟨names, -, filled, -, file⟩
    exact directory (isDirectory_of_below (by simpa using filled) (isSome_of_isFile file))

/-- A search by pattern leaves no file out whose names fit the pattern one by one. -/
theorem mem_glob_of_fits {root : Path} {pattern : Glob} {names : List String} {above : Place}
    {found : List String} (fits : List.Forall₂ GlobStep.Fits pattern.steps names)
    (files : pattern.directories = false) (filled : names ≠ [])
    (located : disk.locate root = .ok above) (file : disk.isFile (names.reverse ++ above))
    (h : disk.glob root pattern = .ok found) : Text.join "/" names ∈ found := by
  have down : ∀ name, GlobStep.name name ∈ pattern.steps → name ≠ ".." := by
    rintro _ mem rfl
    obtain ⟨name, isIn, same⟩ := exists_of_forall₂ fits.flip mem
    obtain rfl : ".." = name := same
    exact absurd (names_of_isFile file ".." isIn) (by decide)
  exact (mem_glob_iff down files located h).2 ⟨names, rfl, filled,
    GlobStep.matches_of_fits fits, file⟩

end Disk
end Scaffold
