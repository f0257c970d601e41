import Scaffold.Disk.Operation
import Scaffold.Proofs.Outcomes
import Scaffold.Proofs.Text.Pieces

/-!
# Places of paths

A path whose names are neither empty nor points names one place below the place of its directory,
and two such paths never name the same one. Where a path leads hangs on the directories of a disk
only, so taking files away leaves it alone.
-/

namespace Scaffold
set_option autoImplicit false

namespace Path

/-- A relative path as it is written down for a file: no name is empty or stands for a directory
above or for nothing. -/
def IsNormal (path : String) : Prop :=
  ∀ name ∈ Text.split '/' path, name ≠ "" ∧ name ≠ "." ∧ name ≠ ".."

instance (path : String) : Decidable (IsNormal path) :=
  inferInstanceAs (Decidable (∀ name ∈ Text.split '/' path, name ≠ "" ∧ name ≠ "." ∧ name ≠ ".."))

theorem startOf_of_normal {path : String} (normal : IsNormal path) : startOf path.toList = "" := by
  rcases chars : path.toList with _ | ⟨c, rest⟩
  · rfl
  · have apart : c ≠ '/' := by
      rintro rfl
      have first : "" ∈ Text.split '/' path := by
        rw [Text.split, chars]
        exact List.mem_map.2 ⟨[], by simp [Chars.split], rfl⟩
      exact (normal "" first).1 rfl
    unfold startOf
    split <;> simp_all

/-- Reading a normal path leaves nothing out. -/
theorem ofText_of_normal {path : String} (normal : IsNormal path) :
    ofText path = ⟨"", Text.split '/' path⟩ := by
  have all : (Text.split '/' path).filter (fun name => !name.isEmpty && name != ".") =
      Text.split '/' path := by
    rw [List.filter_eq_self]
    intro name mem
    obtain ⟨filled, point, -⟩ := normal name mem
    simp [filled, point]
  rw [ofText, all, startOf_of_normal normal]

theorem ofText_append_names (front back : String) :
    (ofText (front ++ "/" ++ back)).names = (ofText front).names ++ (ofText back).names := by
  simp only [ofText, Text.split_append, List.filter_append]

theorem not_hasChar_of_isName {name : String} (h : isName name) :
    Text.hasChar '\x00' name = false := by
  simp only [isName, Bool.and_eq_true, List.all_eq_true] at h
  rw [Text.hasChar, Bool.eq_false_iff, ne_eq, List.contains_iff_mem]
  intro mem
  simpa using h.2 _ mem

/-- Names of entries, joined, are a normal path with these names. -/
theorem normal_join {names : List String} (filled : names ≠ []) (h : ∀ name ∈ names, isName name) :
    IsNormal (Text.join "/" names) ∧ Text.split '/' (Text.join "/" names) = names := by
  have split : Text.split '/' (Text.join "/" names) = names := by
    refine Text.split_join filled fun name mem slash => ?_
    have name := h name mem
    simp only [isName, Bool.and_eq_true, List.all_eq_true] at name
    simpa using name.2 _ slash
  refine ⟨fun name mem => ?_, split⟩
  rw [split] at mem
  have name := h name mem
  simp only [isName, Bool.and_eq_true] at name
  refine ⟨?_, ?_, ?_⟩ <;> rintro rfl <;> simp at name

end Path

namespace Disk

/-- The directories of one disk are directories of another. -/
structure KeepsDirectories (before after : Disk) : Prop where
  here : after.here = before.here
  directories : ∀ place, before.isDirectory place → after.isDirectory place

theorem KeepsDirectories.refl (disk : Disk) : KeepsDirectories disk disk := ⟨rfl, fun _ => id⟩

theorem KeepsDirectories.trans {a b c : Disk} (first : KeepsDirectories a b)
    (second : KeepsDirectories b c) : KeepsDirectories a c :=
  ⟨second.here.trans first.here, fun place h =>
    second.directories place (first.directories place h)⟩

/-- A way through directories stays open while they are kept. -/
theorem KeepsDirectories.walk {before after : Disk} (kept : KeepsDirectories before after)
    {names : List String} {start goal : Place} (h : before.walk start names = .ok goal) :
    after.walk start names = .ok goal := by
  induction names generalizing start with
  | nil => exact h
  | cons name rest ih =>
    simp only [Disk.walk] at h ⊢
    split at h
    · rename_i directory
      rw [if_pos (kept.directories _ directory)]
      split at h
      · rename_i up
        rw [if_pos up]
        exact ih h
      · rename_i down
        rw [if_neg down]
        split at h
        · cases h
        · rename_i short
          rw [if_neg short]
          exact ih h
    · cases h

theorem locate_eq_ok {disk : Disk} {path : Path} {place : Place} :
    disk.locate path = .ok place ↔ path.names.any (Text.hasChar '\x00') = false ∧
      isTooLongPath path.text = false ∧ disk.walk (disk.startOf path) path.names = .ok place := by
  rw [locate]
  split
  · rename_i null
    simp only [null, Bool.true_eq_false, false_and, reduceCtorEq]
  · split
    · simp_all
    · cases walked : disk.walk (disk.startOf path) path.names <;> simp_all

theorem KeepsDirectories.locate {before after : Disk}
    (kept : KeepsDirectories before after) {path : Path}
    {place : Place} (h : before.locate path = .ok place) : after.locate path = .ok place := by
  obtain ⟨named, short, walked⟩ := locate_eq_ok.1 h
  have start : after.startOf path = before.startOf path := by simp only [startOf, kept.here]
  exact locate_eq_ok.2 ⟨named, short, start ▸ kept.walk walked⟩

theorem walk_append_of_ok {disk : Disk} {start place : Place} {front : List String}
    (h : disk.walk start front = .ok place) (back : List String) :
    disk.walk start (front ++ back) = disk.walk place back := by
  induction front generalizing start with
  | nil =>
    obtain rfl := Except.ok.inj h
    rfl
  | cons name rest ih =>
    simp only [List.cons_append, walk] at h ⊢
    split at h
    · rename_i directory
      rw [if_pos directory]
      split at h
      · rename_i up
        rw [if_pos up]
        exact ih h
      · rename_i down
        rw [if_neg down]
        split at h
        · cases h
        · rename_i short
          rw [if_neg short]
          exact ih h
    · cases h

/-- A way of two parts. -/
theorem walk_append {disk : Disk} {start goal : Place} {front back : List String} :
    disk.walk start (front ++ back) = .ok goal ↔
      ∃ place, disk.walk start front = .ok place ∧ disk.walk place back = .ok goal := by
  induction front generalizing start with
  | nil => simp [walk]
  | cons name rest ih =>
    simp only [List.cons_append, walk]
    split
    · split
      · exact ih
      · split
        · simp
        · exact ih
    · simp

/-- Names that do not lead up are added one by one. -/
theorem eq_of_walk {disk : Disk} {start goal : Place} {names : List String}
    (down : ∀ name ∈ names, name ≠ "..") (h : disk.walk start names = .ok goal) :
    goal = names.reverse ++ start := by
  induction names generalizing start with
  | nil => exact (Except.ok.inj h).symm
  | cons name rest ih =>
    simp only [walk, if_neg (down name (List.mem_cons_self ..))] at h
    split at h
    · split at h
      · cases h
      · rw [ih (fun other mem => down other (List.mem_cons_of_mem _ mem)) h]
        simp
    · cases h

/-- The place that a path spells, whether the way there is open or not. -/
def target (disk : Disk) (path : Path) : Place :=
  path.names.foldl (fun place name => if name = ".." then place.tail else name :: place)
    (disk.startOf path)

/-- An open way leads where the path spells. -/
theorem eq_target_of_locate {disk : Disk} {path : Path} {place : Place}
    (h : disk.locate path = .ok place) : place = disk.target path := by
  have fold : ∀ (names : List String) (start : Place), disk.walk start names = .ok place →
      place = names.foldl (fun place name => if name = ".." then place.tail
        else name :: place) start := by
    intro names
    induction names with
    | nil => exact fun start h => (Except.ok.inj h).symm
    | cons name rest ih =>
      intro start h
      simp only [walk] at h
      rw [List.foldl_cons]
      split at h
      · split at h
        · rename_i up
          rw [if_pos up]
          exact ih _ h
        · rename_i down
          rw [if_neg down]
          split at h
          · cases h
          · exact ih _ h
      · cases h
  exact fold _ _ (locate_eq_ok.1 h).2.2

/-- Names that do not lead up are added to the place of a path one by one. -/
theorem target_extend {disk : Disk} {path : Path} {names : List String} (down : ".." ∉ names) :
    disk.target (path.extend names) = names.reverse ++ disk.target path := by
  have fold : ∀ (names : List String) (start : Place), ".." ∉ names →
      names.foldl (fun place name => if name = ".." then place.tail else name :: place) start =
        names.reverse ++ start := by
    intro names
    induction names with
    | nil => simp
    | cons name rest ih =>
      intro start down
      rw [List.mem_cons, not_or] at down
      rw [List.foldl_cons, if_neg (Ne.symm down.1), ih _ down.2]
      simp
  have start : disk.startOf (path.extend names) = disk.startOf path := rfl
  rw [target, start, Path.extend, List.foldl_append, fold names _ down]
  rfl

/-- `after` is `before` without the files at some places. -/
structure Without (gone : List Place) (before after : Disk) : Prop where
  here : after.here = before.here
  files : ∀ place ∈ gone, before.isFile place
  holds : ∀ place, after.get? place = if place ∈ gone then none else before.get? place

theorem isDirectory_iff {disk : Disk} {place : Place} :
    disk.isDirectory place ↔ disk.get? place = some .directory := decide_eq_true_iff

theorem not_isDirectory_of_isFile {disk : Disk} {place : Place} (h : disk.isFile place) :
    ¬ disk.isDirectory place := by
  rw [isDirectory_iff]
  intro directory
  simp [isFile, directory] at h

theorem Without.refl (disk : Disk) : Without [] disk disk := ⟨rfl, by simp, by simp⟩

theorem Without.isDirectory {gone : List Place} {before after : Disk}
    (h : Without gone before after) (place : Place) :
    after.isDirectory place = before.isDirectory place := by
  rw [Bool.eq_iff_iff, isDirectory_iff, isDirectory_iff, h.holds]
  split
  · rename_i mem
    have file := not_isDirectory_of_isFile (h.files place mem)
    rw [isDirectory_iff] at file
    simp [file]
  · rfl

theorem Without.isFile {gone : List Place} {before after : Disk} (h : Without gone before after)
    {place : Place} : after.isFile place ↔ before.isFile place ∧ place ∉ gone := by
  simp only [Disk.isFile, h.holds]
  by_cases mem : place ∈ gone <;> simp [mem]

theorem Without.keeps {gone : List Place} {before after : Disk} (h : Without gone before after) :
    KeepsDirectories before after :=
  ⟨h.here, fun place directory => (h.isDirectory place).trans directory⟩

/-- A path leads to the same place before and after files are taken away. -/
theorem Without.locate {gone : List Place} {before after : Disk}
    (h : Without gone before after) {path : Path}
    {place : Place} : after.locate path = .ok place ↔ before.locate path = .ok place := by
  have back : KeepsDirectories after before :=
    ⟨h.here.symm, fun place directory => (h.isDirectory place).symm.trans directory⟩
  exact ⟨back.locate, h.keeps.locate⟩

theorem Without.remove {gone : List Place} {before after : Disk} (h : Without gone before after)
    {place : Place} (file : after.isFile place) :
    Without (gone ++ [place]) before (after.remove place) where
  here := by
    rw [Disk.remove, dif_pos file]
    exact h.here
  files other mem := by
    rcases List.mem_append.1 mem with mem | mem
    · exact h.files other mem
    · obtain rfl := List.mem_singleton.1 mem
      exact (h.isFile.1 file).1
  holds other := by
    rw [get?_remove file, h.holds]
    by_cases same : other = place <;> simp [same]

end Disk
end Scaffold
