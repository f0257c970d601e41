import Scaffold.Proofs.Project.Effects
import Scaffold.Proofs.Text.Patterns
import Scaffold.Proofs.Text.Searching

/-!
# Files that fit a pattern

The steps of a pattern may fit names one by one. Those of a pattern with one star fit the names that
have something else in its place: `Glob.fits_of_ofText`. So where a search for migrations comes back
empty, no migration of that ending is there, whatever the moment in its name:
`Project.contentAt_migrationPath`.
-/

namespace Scaffold
set_option autoImplicit false

/-- A step of a pattern stands for a name. -/
def GlobStep.Fits : GlobStep → String → Prop
  | .name text, given => text = given
  | .fitting pattern, given => Pattern.recognizes pattern given.toList = true
  | .anyDepth, _ => False

/-- The names of a text with another one in front of it: what is in front belongs to the first of
them. -/
theorem exists_namesOf_append (text : String) :
    ∃ head others, (∀ c ∈ head.toList, c ∈ text.toList) ∧
    (∀ name ∈ others, ∀ c ∈ name.toList, c ∈ text.toList) ∧ ∀ front : String, '/' ∉ front.toList →
      (∃ c ∈ front.toList, c ≠ '.') → namesOf (front ++ text) = (front ++ head) :: others := by
  cases pieces : Chars.split '/' text.toList with
  | nil => exact absurd pieces (Chars.split_ne_nil '/' text.toList)
  | cons head rest =>
    have among : ∀ piece ∈ head :: rest, ∀ c ∈ piece, c ∈ text.toList := fun piece mem =>
      Chars.mem_of_mem_split (pieces ▸ mem)
    refine ⟨String.ofList head, (rest.map String.ofList).filter fun name => !name.isEmpty &&
      name != ".", ?_, ?_, ?_⟩
    · rw [String.toList_ofList]
      exact among head (List.mem_cons_self ..)
    · intro name mem
      obtain ⟨piece, isPiece, rfl⟩ := List.mem_map.1 (List.mem_filter.1 mem).1
      rw [String.toList_ofList]
      exact among piece (List.mem_cons_of_mem head isPiece)
    · intro front clear visible
      obtain ⟨c, mem, apart⟩ := visible
      have spelled : Text.split '/' (front ++ text) = (front ++ String.ofList head) ::
          rest.map String.ofList := by
        rw [Text.split, String.toList_append, Chars.split_append_of_not_mem clear pieces,
          List.map_cons, String.ofList_append, String.ofList_toList]
      have inside : c ∈ (front ++ String.ofList head).toList := by
        rw [String.toList_append]
        exact List.mem_append_left _ mem
      have isSome : (front ++ String.ofList head).isEmpty = false := by
        rw [Bool.eq_false_iff, ne_eq, String.isEmpty_iff]
        intro absent
        rw [absent] at inside
        exact List.not_mem_nil inside
      have point : front ++ String.ofList head ≠ "." := by
        intro same
        rw [same] at inside
        exact apart (List.mem_singleton.1 inside)
      simp [namesOf, Path.ofText, spelled, isSome, point]

namespace Glob

theorem directories_of_ofText {text : String} {pattern : Glob} (h : ofText text = .ok pattern) :
    pattern.directories = Text.endsWith "/" text := by
  simp only [ofText, bind, Except.bind, pure, Except.pure] at h
  split at h
  · cases h
  · split at h
    · cases h
    · split at h
      · cases h
      · cases steps : (Path.ofText text).names.mapM stepOf with
        | error e => simp [steps] at h
        | ok found =>
          simp only [steps] at h
          rw [← Except.ok.inj h]

/-- Without characters that mean more there are no two stars. -/
theorem not_has_depth {name : String} (literal : Pattern.isPattern name = false) :
    Text.has "**" name = false := by
  rw [Bool.eq_false_iff, ne_eq, Text.has_iff]
  exact fun here => (Pattern.isPattern_eq_false.1 literal '*' (here.subset (by decide))).1 rfl

/-- Names without a character that means more stand for themselves. -/
theorem steps_of_plain {names : List String}
    (plain : ∀ name ∈ names, Pattern.isPattern name = false) :
    names.mapM stepOf = .ok (names.map .name) := by
  rw [mapM_eq_ok, List.forall₂_map_right_iff, List.forall₂_same]
  exact fun name mem => stepOf_of_plain (not_has_depth (plain name mem)) (plain name mem)

/-- A star in front of an ending stands for the names that end so. -/
theorem stepOf_star {ending : String} (literal : Pattern.isPattern ending = false) :
    stepOf ("*" ++ ending) = .ok (.fitting (Pattern.parts ("*" ++ ending).toList)) := by
  have chars : ("*" ++ ending).toList = '*' :: ending.toList := by simp
  have once : '*' ∉ ending.toList := fun mem => (Pattern.isPattern_eq_false.1 literal '*' mem).1 rfl
  have apart : "*" ++ ending ≠ "**" := by
    intro same
    rw [same] at chars
    exact once ((List.cons.inj chars).2 ▸ List.mem_cons_self ..)
  have depth : Text.has "**" ("*" ++ ending) = false := by
    rw [Bool.eq_false_iff, ne_eq, Text.has_iff, chars, List.infix_cons_iff]
    rintro (front | inside)
    · exact once ((List.cons_prefix_cons.1 front).2.subset (List.mem_cons_self ..))
    · exact once (inside.subset (List.mem_cons_self ..))
  have more : Pattern.isPattern ("*" ++ ending) = true := by simp [Pattern.isPattern]
  simp [stepOf, apart, depth, more]

theorem fits_names (names : List String) : List.Forall₂ GlobStep.Fits (names.map .name) names := by
  induction names with
  | nil => exact .nil
  | cons name names ih => exact .cons rfl ih

/-- What stands in the place of the star of a pattern makes names that fit it. -/
theorem fits_of_ofText {front : List String} (filled : front ≠ [])
    (named : ∀ name ∈ front, isName name) (plain : ∀ name ∈ front, Pattern.isPattern name = false)
    {suffix : String} (literal : Pattern.isPattern suffix = false)
    {pattern : Glob} (h : ofText (Text.join "/" front ++ "/" ++ ("*" ++ suffix)) = .ok pattern)
    {stem : String} (slash : '/' ∉ stem.toList) (visible : ∃ c ∈ stem.toList, c ≠ '.') :
    List.Forall₂ GlobStep.Fits pattern.steps
      (namesOf (Text.join "/" front ++ "/" ++ (stem ++ suffix))) := by
  obtain ⟨head, others, isHead, isOther, names⟩ := exists_namesOf_append suffix
  have literal' := Pattern.isPattern_eq_false.1 literal
  have headLiteral : Pattern.isPattern head = false :=
    Pattern.isPattern_eq_false.2 fun c mem => literal' c (isHead c mem)
  have starred : namesOf ("*" ++ suffix) = ("*" ++ head) :: others :=
    names "*" (by decide) ⟨'*', by decide, by decide⟩
  obtain ⟨rest, read, steps⟩ := steps_of_ofText h
    ((Project.names_of_pattern filled named ("*" ++ suffix)).trans (by rw [starred]))
      fun name mem =>
    ⟨not_has_depth (plain name mem), plain name mem⟩
  obtain ⟨step, more, here, there, rfl⟩ := List.forall₂_cons_left_iff.1 (mapM_eq_ok.1 read)
  obtain rfl := Except.ok.inj ((stepOf_star headLiteral).symm.trans here)
  have plainOthers : ∀ name ∈ others, Pattern.isPattern name = false := fun name mem =>
    Pattern.isPattern_eq_false.2 fun c isIn => literal' c (isOther name mem c isIn)
  obtain rfl := Except.ok.inj ((steps_of_plain plainOthers).symm.trans (mapM_eq_ok.2 there))
  have fitting : GlobStep.Fits (.fitting (Pattern.parts ("*" ++ head).toList)) (stem ++ head) :=
    (Pattern.covers_ending headLiteral).2 ⟨stem, rfl⟩
  have spelled : namesOf (Text.join "/" front ++ "/" ++ (stem ++ suffix)) = front ++
      (stem ++ head) :: others := by
    rw [← names stem slash visible]
    exact Project.names_of_pattern filled named (stem ++ suffix)
  rw [steps, spelled]
  exact List.rel_append (fits_names front) (.cons fitting (fits_names others))

end Glob
end Scaffold
