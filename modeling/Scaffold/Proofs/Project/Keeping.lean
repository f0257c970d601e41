import Scaffold.Proofs.Disk.Fitting
import Scaffold.Proofs.Disk.Matching

/-!
# Files that work on a project keeps and clears

`Project.KeepsFiles` says which files of a project may have changed; all others that were there are
there with their content. It is less than `Project.Touches`: new files may have come. A file that
the disk does not find, or a search does not, is not there (`Project.contentAt_of_fileExists`,
`Project.contentAt_of_glob`), so it may be written.

Where the way to its root is open, a search in a project finds the files to whose names the pattern
leads (`Project.exists_mem_glob_iff`), and a file that was deleted is gone
(`Project.contentAt_of_delete`). So when all that a pattern finds has been deleted, no file of the
pattern is left and no other one has changed.
-/

namespace Scaffold
set_option autoImplicit false

namespace Project

/-- The way to the root of a project is open. -/
def IsOpen (p : Project) : Prop := ∃ above, p.disk.locate p.root = .ok above

/-- A file of a project: names lead to it from the root. -/
def HasFile (p : Project) (path : String) (content : ByteArray) : Prop :=
  Path.IsNormal path ∧ p.IsOpen ∧ p.contentAt (namesOf path) = some content

/-- Directories are kept, and all files that were there but those at some names. -/
structure KeepsFiles (allowed : List String → Prop) (before after : Project) : Prop where
  same : after = { before with disk := after.disk }
  keeps : Disk.KeepsDirectories before.disk after.disk
  contents : ∀ names content, ¬ allowed names → before.contentAt names = some content →
    after.contentAt names = some content

variable {allowed touched : List String → Prop} {p before after : Project} {path : String}
  {content : ByteArray}

theorem KeepsFiles.refl (allowed : List String → Prop) (p : Project) : KeepsFiles allowed p p :=
  ⟨rfl, .refl p.disk, fun _ _ _ => id⟩

theorem KeepsFiles.trans {a b c : Project} (first : KeepsFiles allowed a b)
    (second : KeepsFiles allowed b c) : KeepsFiles allowed a c :=
  ⟨by rw [second.same, first.same], first.keeps.trans second.keeps,
    fun names content apart held => second.contents names content apart
      (first.contents names content apart held)⟩

/-- Where only new files are touched, or such as may change, the others are kept. -/
theorem Touches.keepsFiles (h : Touches touched before after)
    (free : ∀ names, touched names → ¬ allowed names → before.contentAt names = none) :
    KeepsFiles allowed before after := by
  refine ⟨h.same, h.keeps, fun names content apart held => ?_⟩
  rw [h.contents names, held]
  intro isTouched
  cases (free names isTouched apart).symm.trans held

theorem IsOpen.of_keeps (opened : before.IsOpen) (same : after = { before with disk := after.disk })
    (keeps : Disk.KeepsDirectories before.disk after.disk) : after.IsOpen := by
  obtain ⟨above, located⟩ := opened
  have root : after.root = before.root := by rw [same]
  exact ⟨above, root ▸ keeps.locate located⟩

theorem HasFile.of_keepsFiles (held : before.HasFile path content)
    (kept : KeepsFiles allowed before after) (apart : ¬ allowed (namesOf path)) :
    after.HasFile path content :=
  ⟨held.1, held.2.1.of_keeps kept.same kept.keeps, kept.contents _ _ apart held.2.2⟩

/-- Where a file has content there is a file below the root. -/
theorem isFile_of_contentAt {names : List String} {above : Place}
    (located : p.disk.locate p.root = .ok above) (held : p.contentAt names = some content) :
    p.disk.isFile (names.reverse ++ above) := by
  rw [contentAt, ← Disk.eq_target_of_locate located] at held
  rw [Disk.isFile, Disk.get?_of_content? held]

/-- Where the disk finds nothing, no names lead to a file. -/
theorem contentAt_of_fileExists (opened : p.IsOpen) (absent : p.fileExists path = .ok false) :
    p.contentAt (namesOf path) = none := by
  obtain ⟨above, located⟩ := opened
  cases held : p.contentAt (namesOf path) with
  | none => rfl
  | some content =>
    have file := Disk.isSome_of_isFile (isFile_of_contentAt located held)
    cases resolves : p.resolve path with
    | error f => simp [fileExists, status, resolves, bind, Except.bind, Except.map] at absent
    | ok resolved =>
      obtain ⟨-, -, rfl⟩ := resolve_eq_ok.1 resolves
      rcases Disk.locate_extend_of_held located file with here | ⟨text, long⟩
      · simp [fileExists, status, resolves, Disk.status, here, bind, Except.bind,
          Except.map] at absent
        simp [absent] at file
      · simp [fileExists, status, resolves, Disk.status, long, bind, Except.bind,
          Except.map] at absent

/-- Where a search finds nothing, no file is there whose name has something in the place of the
star. -/
theorem contentAt_of_glob {front : List String} (filled : front ≠ [])
    (named : ∀ name ∈ front, isName name) (plain : ∀ name ∈ front, Pattern.isPattern name = false)
    {suffix : String} (literal : Pattern.isPattern suffix = false)
    (ends : Text.endsWith "/" (Text.join "/" front ++ "/" ++ ("*" ++ suffix)) = false)
    (opened : p.IsOpen) (absent : p.glob (Text.join "/" front ++ "/" ++ ("*" ++ suffix)) = .ok [])
    {stem : String} (slash : '/' ∉ stem.toList)
    (visible : ∃ c ∈ stem.toList, c ≠ '.') :
    p.contentAt (namesOf (Text.join "/" front ++ "/" ++ (stem ++ suffix))) = Option.none := by
  obtain ⟨above, located⟩ := opened
  obtain ⟨pattern, spelled, found⟩ := disk_glob_of_glob absent
  have fits := Glob.fits_of_ofText filled named plain literal spelled slash visible
  have below : namesOf (Text.join "/" front ++ "/" ++ (stem ++ suffix)) ≠ [] := by
    rw [namesOf, names_of_pattern filled named]
    exact List.append_ne_nil_of_left_ne_nil filled _
  cases held : p.contentAt (namesOf (Text.join "/" front ++ "/" ++ (stem ++ suffix))) with
  | none => rfl
  | some content =>
    have mem :=
      Disk.mem_glob_of_fits fits ((Glob.directories_of_ofText spelled).trans ends) below located
      (isFile_of_contentAt located held) found
    exact absurd mem List.not_mem_nil

end Project
/-! ## Clearing a project of the files of a pattern -/

/-- A path is too long when it is without its last names. -/
theorem isTooLongPath_extend {path : Path} {names : List String}
    (short : isTooLongPath (path.extend names).text = false) :
    isTooLongPath path.text = false := by
  simp only [isTooLongPath, decide_eq_false_iff_not, Nat.not_lt] at short ⊢
  by_cases bare : (path.start.isEmpty && path.names.isEmpty) = true
  · rw [Path.text, if_pos bare]
    decide
  · have further :
        ((path.extend names).start.isEmpty && (path.extend names).names.isEmpty) = false := by
      simp only [Path.extend, Bool.and_eq_true, not_and, Bool.not_eq_true,
        List.isEmpty_eq_false_iff] at bare ⊢
      by_cases start : path.start.isEmpty = true
      · simp [start, bare start]
      · simp [start]
    rw [Path.text, if_neg (by rw [further]; exact Bool.false_ne_true)] at short
    rw [Path.text, if_neg bare]
    refine Nat.le_trans ?_ short
    by_cases empty : path.names = []
    · simp [empty, Path.extend, Text.join, String.utf8ByteSize_append]
    · by_cases more : names = []
      · simp [more, Path.extend]
      · simp only [Path.extend, Text.join_append empty more, String.utf8ByteSize_append]
        omega

namespace Disk

/-- The way to a path leads past the paths in front of it. -/
theorem exists_locate_of_extend {disk : Disk} {path : Path} {names : List String} {place : Place}
    (h : disk.locate (path.extend names) = .ok place) : ∃ above, disk.locate path = .ok above := by
  obtain ⟨named, short, walked⟩ := locate_eq_ok.1 h
  obtain ⟨above, here, -⟩ := walk_append.1 walked
  rw [Path.extend, List.any_append, Bool.or_eq_false_iff] at named
  exact ⟨above, locate_eq_ok.2 ⟨named.1, isTooLongPath_extend short, here⟩⟩

end Disk

/-- A pattern has steps. -/
theorem Glob.steps_ne_nil {text : String} {pattern : Glob} (h : Glob.ofText text = .ok pattern) :
    pattern.steps ≠ [] := by
  simp only [ofText, bind, Except.bind, pure, Except.pure] at h
  split at h
  · cases h
  · split at h
    · cases h
    · split at h
      · cases h
      · rename_i filled
        cases steps : (Path.ofText text).names.mapM stepOf with
        | error e => simp [steps] at h
        | ok found =>
          simp only [steps] at h
          obtain rfl := Except.ok.inj h
          rintro rfl
          have empty : (Path.ofText text).names = [] :=
            List.forall₂_nil_right_iff.1 (mapM_eq_ok.1 steps)
          exact filled (by rw [empty]; rfl)

namespace Project

variable {p after : Project} {path : String} {content : ByteArray}

/-- The way to a file leads past the root. -/
theorem isOpen_of_stands (h : p.Stands path content) : p.IsOpen := by
  obtain ⟨place, here, -⟩ := h
  obtain ⟨resolved, resolves, located⟩ := place?_eq_some.1 here
  obtain ⟨-, -, rfl⟩ := resolve_eq_ok.1 resolves
  exact Disk.exists_locate_of_extend located

/-- Where a search finds something, it has come past the root. -/
theorem isOpen_of_mem_glob {pattern : String} {files : List String} (h : p.glob pattern = .ok files)
    (mem : path ∈ files) : p.IsOpen := by
  obtain ⟨glob, -, found⟩ := disk_glob_of_glob h
  obtain ⟨place, _, _, located, -⟩ := Disk.select_of_mem_glob found mem
  exact ⟨place, located⟩

/-- The names that lead to a file are names of entries. -/
theorem isName_of_contentAt (opened : p.IsOpen) {names : List String}
    (held : p.contentAt names = some content) : ∀ name ∈ names, isName name := by
  obtain ⟨above, located⟩ := opened
  exact Disk.names_of_isFile (isFile_of_contentAt located held)

/-- Where a file is below the root, it has content. -/
theorem isFile_iff_contentAt {names : List String} {above : Place}
    (located : p.disk.locate p.root = .ok above) :
    p.disk.isFile (names.reverse ++ above) = true ↔ (p.contentAt names).isSome = true := by
  constructor
  · intro file
    rw [contentAt, ← Disk.eq_target_of_locate located]
    unfold Disk.isFile at file
    split at file
    · rename_i content held
      rw [Disk.content?_of_get? held]
      rfl
    · cases file
  · intro held
    obtain ⟨content, held⟩ := Option.isSome_iff_exists.1 held
    exact isFile_of_contentAt located held

/-- A deletion that finds nothing leaves nothing there. -/
theorem contentAt_of_delete_missing (opened : p.IsOpen) (h : p.delete path = .ok (false, p)) :
    p.contentAt (namesOf path) = none := by
  obtain ⟨above, located⟩ := opened
  cases held : p.contentAt (namesOf path) with
  | none => rfl
  | some content =>
    have file := isFile_of_contentAt located held
    rcases p.permit_cases .delete path with permitted | ⟨f, denied⟩
    · cases resolves : p.resolve path with
      | error f => simp [delete, permitted, resolves, bind, Except.bind] at h
      | ok resolved =>
        obtain ⟨-, -, rfl⟩ := resolve_eq_ok.1 resolves
        rw [delete_of_resolved permitted resolves] at h
        rcases Disk.locate_extend_of_held located
          (Disk.isSome_of_isFile file) with here | ⟨text, long⟩
        · rw [Disk.delete_of_locate here file] at h
          cases (Prod.mk.inj (Except.ok.inj h)).1
        · rw [Disk.delete_of_not_located long] at h
          cases h
    · cases ((delete_of_denied denied).symm.trans h)

/-- What was deleted is gone. -/
theorem contentAt_of_delete (opened : p.IsOpen) {found : Bool}
    (h : p.delete path = .ok (found, after)) : after.contentAt (namesOf path) = none := by
  rcases p.delete_cases path with ⟨place, -, here, file, eq⟩ | eq | ⟨_, eq⟩ | ⟨-, -, eq⟩
  · obtain ⟨-, rfl⟩ := Prod.mk.inj (Except.ok.inj (h.symm.trans eq))
    exact contentAt_remove here file
  · obtain ⟨-, rfl⟩ := Prod.mk.inj (Except.ok.inj (h.symm.trans eq))
    exact contentAt_of_delete_missing opened eq
  · cases (h.symm.trans eq)
  · cases (h.symm.trans eq)

/-- A search finds the files to whose names its pattern leads. -/
theorem exists_mem_glob_iff (opened : p.IsOpen) {pattern : String} {glob : Glob}
    (spelled : Glob.ofText pattern = .ok glob)
    (down : ∀ name, GlobStep.name name ∈ glob.steps → name ≠ "..")
    (files : glob.directories = false) {found : List String}
    (h : p.glob pattern = .ok found) {names : List String} :
    (∃ file ∈ found, namesOf file = names) ↔
      GlobStep.Matches glob.steps names ∧ (p.contentAt names).isSome = true := by
  obtain ⟨above, located⟩ := opened
  obtain ⟨glob', spelled', found⟩ := disk_glob_of_glob h
  obtain rfl := Except.ok.inj (spelled.symm.trans spelled')
  -- the names to a file are read back from their path
  have read {names : List String} (filled : names ≠ [])
      (file : p.disk.isFile (names.reverse ++ above) = true) :
      namesOf (Text.join "/" names) = names := by
    obtain ⟨normal, split⟩ := Path.normal_join filled (Disk.names_of_isFile file)
    rw [namesOf_of_normal normal, split]
  constructor
  · rintro ⟨file, mem, rfl⟩
    obtain ⟨names, rfl, filled, others, file⟩ := (Disk.mem_glob_iff down files located found).1 mem
    rw [read filled file]
    exact ⟨others, (isFile_iff_contentAt located).1 file⟩
  · rintro ⟨others, held⟩
    have file := (isFile_iff_contentAt located).2 held
    have filled : names ≠ [] := others.eq_nil_iff.not.1 (Glob.steps_ne_nil spelled)
    exact ⟨_, (Disk.mem_glob_iff down files located found).2 ⟨names, rfl, filled, others, file⟩,
      read filled file⟩

end Project
end Scaffold
