import Scaffold.Proofs.Generation.Emissions
import Scaffold.Proofs.Text.Patterns

/-!
# Plain names

Where the names in a schema are letters, digits and underscores, the path of a page means itself: it
is normal and no pattern. The pattern of a migration then stands for the migrations whose names end
so, whether it is compared or searched for, and for no page.
-/

namespace Scaffold
set_option autoImplicit false

namespace Naming

/-- Latin letters, digits and the underscore. -/
def isPlainChar (c : Char) : Bool := c.isAlphanum || c == '_'

/-- A name of plain characters. -/
def IsPlain (name : String) : Prop := ∀ c ∈ name.toList, isPlainChar c = true

instance (name : String) : Decidable (IsPlain name) :=
  inferInstanceAs (Decidable (∀ c ∈ name.toList, isPlainChar c = true))

theorem lt_of_isPlainChar {c : Char} (h : isPlainChar c = true) : c.toNat < 128 := by
  delta isPlainChar Char.isAlphanum Char.isAlpha Char.isUpper Char.isLower Char.isDigit at h
  simp only [Bool.or_eq_true,
    Bool.and_eq_true, decide_eq_true_eq, beq_iff_eq] at h
  rcases h with ((⟨-, le⟩ | ⟨-, le⟩) | ⟨-, le⟩) | rfl
  · exact Nat.lt_of_le_of_lt (UInt32.le_iff_toNat_le.1 le) (by decide)
  · exact Nat.lt_of_le_of_lt (UInt32.le_iff_toNat_le.1 le) (by decide)
  · exact Nat.lt_of_le_of_lt (UInt32.le_iff_toNat_le.1 le) (by decide)
  · decide

/-- Capital forms of plain characters are plain. -/
theorem isPlainChar_of_mem_upperChar {c d : Char} (h : isPlainChar c = true)
    (mem : d ∈ Text.upperChar c) : isPlainChar d = true := by
  have all : ∀ code < 128, isPlainChar (Char.ofNat code) = true →
      (Text.upperChar (Char.ofNat code)).all isPlainChar = true := by decide +kernel
  have form := all c.toNat (lt_of_isPlainChar h)
  rw [Char.ofNat_toNat] at form
  exact List.all_eq_true.1 (form h) d mem

theorem isPlain_capitalized {name : String} (h : IsPlain name) :
    IsPlain (Text.capitalized name) := by
  intro d mem
  unfold Text.capitalized at mem
  split at mem
  · exact absurd mem (by simp)
  · rename_i c rest chars
    rw [String.toList_ofList, List.mem_append] at mem
    rcases mem with mem | mem
    · exact isPlainChar_of_mem_upperChar (h c (chars ▸ List.mem_cons_self ..)) mem
    · exact h d (chars ▸ List.mem_cons_of_mem c mem)

/-- The pieces of a text hold nothing that the text does not. -/
theorem mem_of_mem_piecesBetween {isGap : Char → Bool} {piece text p : List Char}
    (h : p ∈ piecesBetween isGap piece text) {c : Char} (mem : c ∈ p) : c ∈ piece ∨ c ∈ text := by
  induction text generalizing piece with
  | nil =>
    simp only [piecesBetween] at h
    split at h
    · exact absurd h List.not_mem_nil
    · obtain rfl := List.mem_singleton.1 h
      exact .inl (List.mem_reverse.1 mem)
  | cons d rest ih =>
    simp only [piecesBetween] at h
    split at h
    · split at h
      · exact .inr (List.mem_cons_of_mem d ((ih h).resolve_left List.not_mem_nil))
      · rcases List.mem_cons.1 h with rfl | h
        · exact .inl (List.mem_reverse.1 mem)
        · exact .inr (List.mem_cons_of_mem d ((ih h).resolve_left List.not_mem_nil))
    · rcases ih h with isIn | isIn
      · rcases List.mem_cons.1 isIn with rfl | isIn
        · exact .inr (List.mem_cons_self ..)
        · exact .inl isIn
      · exact .inr (List.mem_cons_of_mem d isIn)

/-- The class of a plain name is plain. -/
theorem isPlain_studly {name : String} (h : IsPlain name) : IsPlain (studly name) := by
  intro c mem
  rw [studly, String.toList_join, List.mem_flatMap] at mem
  obtain ⟨_, isIn, mem⟩ := mem
  obtain ⟨piece, isPiece, rfl⟩ := List.mem_map.1 isIn
  refine isPlain_capitalized (fun d mem => ?_) c mem
  rw [String.toList_ofList] at mem
  exact h d ((mem_of_mem_piecesBetween isPiece mem).resolve_left List.not_mem_nil)

end Naming

/-- A text without slashes and without characters that mean more than themselves. -/
def IsBare (text : String) : Prop := ∀ c ∈ text.toList, c ≠ '/' ∧ c ≠ '*' ∧ c ≠ '?' ∧ c ≠ '['

instance (text : String) : Decidable (IsBare text) :=
  inferInstanceAs (Decidable (∀ c ∈ text.toList, c ≠ '/' ∧ c ≠ '*' ∧ c ≠ '?' ∧ c ≠ '['))

namespace IsBare

variable {text front back : String}

theorem append (first : IsBare front) (second : IsBare back) : IsBare (front ++ back) := by
  intro c mem
  rw [String.toList_append, List.mem_append] at mem
  exact mem.elim (first c) (second c)

theorem of_isPlain (h : Naming.IsPlain text) : IsBare text := by
  intro c mem
  have plain := h c mem
  refine ⟨?_, ?_, ?_, ?_⟩ <;>
  · rintro rfl
    exact absurd plain (by decide)

theorem isPattern (h : IsBare text) : Pattern.isPattern text = false :=
  Pattern.isPattern_eq_false.2 fun c mem => (h c mem).2

theorem not_mem (h : IsBare text) : '/' ∉ text.toList := fun slash => (h '/' slash).1 rfl

end IsBare

namespace Artifact

variable {directory stem suffix : String}

theorem isBare_page (h : IsBare stem) : IsBare (stem ++ ".php") := h.append (by decide)

/-- The name of a page stands for no directory. -/
theorem page_ne (stem : String) :
    stem ++ ".php" ≠ "" ∧ stem ++ ".php" ≠ "." ∧ stem ++ ".php" ≠ ".." := by
  have last : (stem ++ ".php").toList.getLast? = some 'p' := by
    rw [String.toList_append, List.getLast?_append]
    rfl
  refine ⟨?_, ?_, ?_⟩ <;>
  · intro same
    rw [same] at last
    exact absurd last (by decide)

theorem namesOf_pagePath (h : IsBare stem) :
    namesOf (pagePath directory stem) = namesOf directory ++ [stem ++ ".php"] := by
  rw [pagePath, namesOf_append, namesOf_of_not_mem (isBare_page h).not_mem (page_ne stem).1
    (page_ne stem).2.1]

theorem isNormal_pagePath (mem : directory ∈ fileDirectories) (h : IsBare stem) :
    Path.IsNormal (pagePath directory stem) := by
  intro name isIn
  rw [pagePath, Text.split_append, Text.split_of_not_mem (isBare_page h).not_mem, List.mem_append,
    List.mem_singleton] at isIn
  rcases isIn with isIn | rfl
  · have normal : ∀ directory ∈ fileDirectories, Path.IsNormal directory := by decide
    exact normal directory mem name isIn
  · exact page_ne stem

theorem isPattern_pagePath (mem : directory ∈ fileDirectories) (h : IsBare stem) :
    Pattern.isPattern (pagePath directory stem) = false := by
  have literal : ∀ directory ∈ fileDirectories, Pattern.isPattern (directory ++ "/") = false := by
    decide
  rw [Pattern.isPattern_eq_false, pagePath, String.toList_append]
  exact (Pattern.isPattern_eq_false.1 (literal directory mem)).append
    (Pattern.isPattern_eq_false.1 (isBare_page h).isPattern)

/-- No page stands among the migrations. -/
theorem not_prefix_pagePath (mem : directory ∈ fileDirectories) (h : IsBare stem) :
    ¬ Run.migrationNames <+: namesOf (pagePath directory stem) := by
  have apart : ∀ directory ∈ fileDirectories, (namesOf directory).length = 1 ∧
      namesOf directory ≠ ["database"] ∨ (namesOf directory).take Run.migrationNames.length ≠
      Run.migrationNames ∧
        Run.migrationNames.length ≤ (namesOf directory).length := by decide
  rw [namesOf_pagePath h]
  intro isPrefix
  rcases apart directory mem with ⟨one, other⟩ | ⟨other, two⟩
  · obtain ⟨name, eq⟩ := List.length_eq_one_iff.1 one
    rw [eq] at isPrefix other
    obtain ⟨same, -⟩ := List.cons_prefix_cons.1 isPrefix
    exact other (by rw [← same])
  · have front := List.prefix_iff_eq_take.1 isPrefix
    rw [List.take_append_of_le_length two] at front
    exact other front.symm

theorem isPattern_migrationPattern (suffix : String) :
    Pattern.isPattern (migrationPattern suffix) = true := by
  simp [Pattern.isPattern, migrationPattern, migrationsDirectory]

/-- Migrations whose names end so, and they alone. -/
theorem covers_migrationPattern (h : IsBare suffix) {path : String} :
    Pattern.covers (migrationPattern suffix) path = true ↔
    ∃ middle, path = migrationsDirectory ++ "/" ++ (middle ++ suffix) := by
  have spelled : migrationPattern suffix = migrationsDirectory ++ "/" ++ "*" ++ suffix := by
    have star : "/*" = "/" ++ "*" := by decide
    rw [migrationPattern, star]
    simp only [String.append_assoc]
  rw [spelled, Pattern.covers_star (by decide) h.isPattern]

theorem covers_migrationPath (h : IsBare suffix) (moment : Moment) :
    Pattern.covers (migrationPattern suffix) (migrationPath moment suffix) = true :=
  (covers_migrationPattern h).2 ⟨moment.underscored,
    by simp only [migrationPath, String.append_assoc]⟩

theorem prefix_of_covers (h : IsBare suffix) {path : String}
    (covered : Pattern.covers (migrationPattern suffix) path = true) :
    Run.migrationNames <+: namesOf path := by
  obtain ⟨middle, rfl⟩ := (covers_migrationPattern h).1 covered
  have front : namesOf migrationsDirectory = Run.migrationNames := by decide
  rw [namesOf_append, front]
  exact List.prefix_append ..

/-- What is found of a migration is what its pattern stands for. -/
theorem covers_of_mem_glob (h : IsBare suffix) {p : Project} {files : List String}
    (found : p.glob (migrationPattern suffix) = .ok files) {file : String} (mem : file ∈ files) :
    Pattern.covers (migrationPattern suffix) file = true := by
  have chars : ("*" ++ suffix).toList = '*' :: suffix.toList := by simp
  have slash : '/' ∉ ("*" ++ suffix).toList := by simpa [chars] using h.not_mem
  have filled : "*" ++ suffix ≠ "" := fun same => by simp [same] at chars
  have point : "*" ++ suffix ≠ "." := fun same => by simp [same] at chars
  have apart : "*" ++ suffix ≠ "**" := by
    intro same
    rw [same] at chars
    exact (h '*' ((List.cons.inj chars).2 ▸ List.mem_cons_self ..)).2.1 rfl
  have more : Pattern.isPattern ("*" ++ suffix) = true := by simp [Pattern.isPattern]
  rw [Run.migrationPattern_eq] at found
  obtain ⟨name, fits, rfl⟩ := Project.exists_of_mem_glob (by decide) (by decide) (by decide)
    (namesOf_of_not_mem slash filled point) more apart found mem
  have star : "*" ++ suffix = "" ++ "*" ++ suffix := by simp
  rw [star] at fits
  obtain ⟨middle, rfl⟩ := (Pattern.covers_star (by decide) h.isPattern).1 fits
  have front : Text.join "/" Run.migrationNames = migrationsDirectory := by decide
  refine (covers_migrationPattern h).2 ⟨middle, ?_⟩
  rw [Text.join_append (by decide) (by simp), front]
  simp [Text.join]

end Artifact

namespace Schema

variable {s : Schema} {entry path : String}

/-- Every name in a schema is plain. -/
structure HasPlainNames (s : Schema) : Prop where
  entities : ∀ e ∈ s.entities.values, Naming.IsPlain e.name ∧ Naming.IsPlain e.table
  pivots : ∀ name ∈ s.pivots.keys, Naming.IsPlain name

instance (s : Schema) : Decidable s.HasPlainNames :=
  decidable_of_iff ((∀ e ∈ s.entities.values, Naming.IsPlain e.name ∧ Naming.IsPlain e.table) ∧
    ∀ name ∈ s.pivots.keys, Naming.IsPlain name) ⟨fun h => ⟨h.1, h.2⟩,
      fun h => ⟨h.entities, h.pivots⟩⟩

theorem IsPage.named (page : s.IsPage path) : namesOf path ≠ [] := by
  obtain ⟨directory, isDirectory, stem, -, rfl⟩ := page
  obtain ⟨root, -, rest, names⟩ := Artifact.names_pagePath isDirectory stem
  rw [names]
  exact List.cons_ne_nil _ _

theorem isBare_creationSuffix {table : String} (h : Naming.IsPlain table) :
    IsBare (Artifact.creationSuffix table) := by
  have front : IsBare "_create_" := by decide
  have back : IsBare "_table.php" := by decide
  exact (front.append (.of_isPlain h)).append back

namespace HasPlainNames

theorem isBare_stem (plain : s.HasPlainNames) {stem : String} (mem : stem ∈ s.pageStems) :
    IsBare stem := by
  rcases List.mem_append.1 mem with common | own
  · have all : ∀ stem ∈ Artifact.commonStems, IsBare stem := by decide
    exact all stem common
  · obtain ⟨e, isEntity, mem⟩ := List.mem_flatMap.1 own
    obtain ⟨tail, isTail, rfl⟩ := List.mem_map.1 mem
    have all : ∀ tail ∈ Artifact.tails, IsBare tail := by decide
    exact (IsBare.of_isPlain (Naming.isPlain_studly (plain.entities e isEntity).1)).append
      (all tail isTail)

theorem isBare_suffix (plain : s.HasPlainNames) {suffix : String}
    (mem : suffix ∈ s.migrationSuffixes) : IsBare suffix := by
  rcases migrationSuffix_cases mem with rfl | ⟨e, isEntity, rfl⟩ | ⟨name, isPivot, rfl⟩
  · decide
  · exact isBare_creationSuffix (plain.entities e isEntity).2
  · exact isBare_creationSuffix (plain.pivots name isPivot)

theorem isPattern_page (plain : s.HasPlainNames) (page : s.IsPage path) :
    Pattern.isPattern path = false := by
  obtain ⟨directory, isDirectory, stem, isStem, rfl⟩ := page
  exact Artifact.isPattern_pagePath isDirectory (plain.isBare_stem isStem)

theorem not_prefix_page (plain : s.HasPlainNames) (page : s.IsPage path) :
    ¬ Run.migrationNames <+: namesOf path := by
  obtain ⟨directory, isDirectory, stem, isStem, rfl⟩ := page
  exact Artifact.not_prefix_pagePath isDirectory (plain.isBare_stem isStem)

/-- A required pattern is one of migrations, and bare. -/
theorem isBare_of_required (plain : s.HasPlainNames) {suffix : String}
    (required : Artifact.migrationPattern suffix ∈ s.requiredArtifacts) : IsBare suffix := by
  rcases required_cases required with ⟨other, isSuffix, same⟩ | page
  · obtain rfl : suffix = other := by simpa [Artifact.migrationPattern] using same
    exact plain.isBare_suffix isSuffix
  · exact absurd (plain.isPattern_page page) (by simp [Artifact.isPattern_migrationPattern])

/-- Entries that are not the same name different files, if one of them is a page. -/
theorem namesOf_ne (plain : s.HasPlainNames) (page : s.IsPage path)
    (required : entry ∈ s.requiredArtifacts) (apart : path ≠ entry) :
    namesOf path ≠ namesOf entry := by
  intro same
  rcases required_cases required with ⟨suffix, -, rfl⟩ | other
  · exact plain.not_prefix_page page (same ▸ Run.prefix_migrationPattern suffix)
  · obtain ⟨directory, isDirectory, stem, isStem, rfl⟩ := page
    obtain ⟨directory', isDirectory', stem', isStem', rfl⟩ := other
    rw [namesOf_of_normal (Artifact.isNormal_pagePath isDirectory (plain.isBare_stem isStem)),
      namesOf_of_normal (Artifact.isNormal_pagePath isDirectory' (plain.isBare_stem isStem'))]
        at same
    exact apart (by
      rw [← Text.join_split (Artifact.pagePath directory stem), same, Text.join_split])

end HasPlainNames

/-- What a required pattern stands for is required. -/
theorem anyCovers_of_covers {suffix : String}
    (required : Artifact.migrationPattern suffix ∈ s.requiredArtifacts)
    (covered : Pattern.covers (Artifact.migrationPattern suffix) path = true) :
    Pattern.anyCovers s.requiredArtifacts path = true := by
  rw [Pattern.anyCovers, Bool.or_eq_true, List.any_eq_true]
  exact .inr ⟨_, required, by rw [Artifact.isPattern_migrationPattern, covered]; rfl⟩

theorem anyCovers_of_mem (required : path ∈ s.requiredArtifacts) :
    Pattern.anyCovers s.requiredArtifacts path = true := by
  rw [Pattern.anyCovers, Bool.or_eq_true, List.contains_iff_mem]
  exact .inl required

end Schema
end Scaffold
