import Scaffold.Proofs.Disk.Places

/-!
# What writing changes

`Disk.Touches` says where the files of a disk may have changed. Making directories changes none, and
writing a file only that one; the directories that are there stay. The main statements are
`Disk.touches_write` and `Disk.content_of_write`.

When a directory could be made, the way to it is open and it is there
(`Disk.exists_locate_of_makeDirectories`). Where it is there already, making it changes nothing
(`Disk.makeDirectories_of_isDirectory`), and a file that fits goes into it
(`Disk.write_of_isDirectory`).
-/

namespace Scaffold
set_option autoImplicit false

namespace Disk

/-- Directories are kept, and the files are the same but at some places. -/
structure Touches (places : Place → Prop) (before after : Disk) : Prop where
  keeps : KeepsDirectories before after
  contents : ∀ place, ¬ places place → after.content? place = before.content? place

variable {places : Place → Prop} {disk : Disk}

theorem Touches.refl (places : Place → Prop) (disk : Disk) : Touches places disk disk :=
  ⟨.refl disk, fun _ _ => rfl⟩

theorem Touches.trans {a b c : Disk} (first : Touches places a b) (second : Touches places b c) :
    Touches places a c :=
  ⟨first.keeps.trans second.keeps, fun place spared => (second.contents place spared).trans
    (first.contents place spared)⟩

theorem Touches.mono {more : Place → Prop} {before after : Disk} (h : Touches places before after)
    (within : ∀ place, places place → more place) : Touches more before after :=
  ⟨h.keeps, fun place spared => h.contents place fun touched => spared (within place touched)⟩

theorem content?_of_get? {place : Place} {content : ByteArray}
    (h : disk.get? place = some (.file content)) :
    disk.content? place = some content := by
  rw [content?, h]

theorem get?_of_content? {place : Place} {content : ByteArray}
    (h : disk.content? place = some content) : disk.get? place = some (.file content) := by
  unfold content? at h
  split at h
  · rename_i held
    rw [held, Option.some.inj h]
  · cases h

/-- Putting an entry into a directory changes nothing elsewhere. -/
theorem touches_put (name : String) (above : Place) (entry : Entry) :
    Touches (· = name :: above) disk (disk.put name above entry) := by
  by_cases possible : isName name ∧ disk.isDirectory above ∧ ¬ disk.isDirectory (name :: above)
  · obtain ⟨named, directory, free⟩ := possible
    have holds : ∀ place, (disk.put name above entry).get? place = _ :=
      get?_put named directory free
    refine ⟨⟨?_, fun place kept => ?_⟩, fun place spared => ?_⟩
    · rw [put, dif_pos ⟨named, directory, free⟩]
    · rw [isDirectory_iff, holds, if_neg]
      · exact isDirectory_iff.1 kept
      · rintro rfl
        exact free kept
    · simp only [content?, holds, if_neg spared]
  · rw [put, dif_neg possible]
    exact .refl _ disk

theorem touches_remove {place : Place} (file : disk.isFile place) :
    Touches (· = place) disk (disk.remove place) := by
  have without : Without [place] disk (disk.remove place) := (Without.refl disk).remove file
  refine ⟨without.keeps, fun other spared => ?_⟩
  simp only [content?, without.holds, List.mem_singleton, if_neg spared]

/-- A new directory changes no file. -/
theorem touches_makeDirectory {path : Path} {after : Disk}
    (h : disk.makeDirectory path = .ok after) : Touches (fun _ => False) disk after := by
  simp only [makeDirectory, bind, Except.bind] at h
  split at h
  · cases h
  · split at h
    · rename_i name above located free
      obtain rfl := Except.ok.inj h
      have put : Touches (· = name :: above) disk _ := touches_put name above .directory
      refine ⟨put.keeps, fun place _ => ?_⟩
      by_cases here : place = name :: above
      · subst here
        by_cases possible : isName name ∧ disk.isDirectory above ∧
          ¬ disk.isDirectory (name :: above)
        · rw [content?, content?, get?_put possible.1 possible.2.1 possible.2.2, if_pos rfl, free]
        · rw [Disk.put, dif_neg possible]
      · exact put.contents place here
    · cases h

theorem touches_settleDirectory {path : Path} {after : Disk}
    (h : disk.settleDirectory path = .ok after) :
    Touches (fun _ => False) disk after := by
  unfold settleDirectory at h
  split at h
  · rename_i made
    obtain rfl := Except.ok.inj h
    exact touches_makeDirectory made
  · split at h
    · obtain rfl := Except.ok.inj h
      exact .refl _ disk
    · cases h

/-- Making directories changes no file, whether all could be made or not. -/
theorem touches_makeAll (start : String) (names : List String) :
    Touches (fun _ => False) disk (disk.makeAll start names).2 := by
  induction names with
  | nil => exact .refl _ disk
  | cons name above ih =>
    simp only [makeAll]
    split
    · rename_i settled
      exact touches_settleDirectory settled
    · cases made : disk.makeAll start above with
      | mk outcome between =>
        rw [made] at ih
        cases outcome with
        | error e => exact ih
        | ok _ =>
          dsimp only
          split
          · rename_i settled
            exact ih.trans (touches_settleDirectory settled)
          · exact ih
    · exact .refl _ disk

theorem touches_makeDirectories (path : Path) :
    Touches (fun _ => False) disk (disk.makeDirectories path).2 :=
  touches_makeAll path.start path.names.reverse

/-- A file that is put at a path goes into the directory to which the path leads. -/
theorem writeIn_eq_ok {path : Path} {content : ByteArray} {whole : Bool} {after : Disk}
    (h : disk.writeIn path content whole = .ok after) :
    ∃ name above, disk.locate path = .ok (name :: above) ∧ ¬ disk.isDirectory (name :: above) ∧
      after = disk.put name above (.file content) := by
  simp only [writeIn, bind, Except.bind] at h
  split at h
  · cases h
  · cases located : disk.locate path with
    | error e => simp [located] at h
    | ok place =>
      simp only [located] at h
      by_cases directory : disk.isDirectory place = true
      · rw [if_pos directory] at h
        cases h
      · rw [if_neg directory] at h
        cases place with
        | nil => cases h
        | cons name above => exact ⟨name, above, rfl, directory, (Except.ok.inj h).symm⟩

/-- A path that leads somewhere by a last name leads to that name in a directory. -/
theorem isDirectory_of_walk {front : List String} {last name : String} {start above : Place}
    (straight : last ≠ "..") (h : disk.walk start (front ++ [last]) = .ok (name :: above)) :
    name = last ∧ disk.isDirectory above := by
  obtain ⟨place, -, inside⟩ := walk_append.1 h
  simp only [walk, if_neg straight] at inside
  split at inside
  · rename_i directory
    split at inside
    · cases inside
    · obtain ⟨rfl, rfl⟩ := List.cons.inj (Except.ok.inj inside)
      exact ⟨rfl, directory⟩
  · cases inside

/-- A path ends in a name, unless the last of its texts has a character that no name has. -/
def EndsInName (path : Path) : Prop :=
  ∃ front last, path.names = front ++ [last] ∧ last ≠ ".." ∧
    (Text.hasChar '\x00' last = false → isName last)

/-- What such a path leads to may stand where it leads. -/
theorem isName_of_locate {path : Path} (ends : EndsInName path) {name : String} {above : Place}
    (located : disk.locate path = .ok (name :: above)) : isName name ∧ disk.isDirectory above := by
  obtain ⟨front, last, names, straight, named⟩ := ends
  obtain ⟨noNull, -, walked⟩ := locate_eq_ok.1 located
  rw [names] at noNull walked
  obtain ⟨rfl, directory⟩ := isDirectory_of_walk straight walked
  have clear : Text.hasChar '\x00' name = false := by
    rw [List.any_eq_false] at noNull
    simpa using noNull name (by simp)
  exact ⟨named clear, directory⟩

/-- What a write does: it makes directories, and puts the file if it can. -/
theorem write_cases (disk : Disk) (path : Path) (content : ByteArray) (whole : Bool) :
    ∃ between, Touches (fun _ => False) disk between ∧
      ((∃ e, disk.write path content whole = (.error e, between)) ∨
        ∃ name above, between.locate path = .ok (name :: above) ∧
        ¬ between.isDirectory (name :: above) ∧
          disk.write path content whole = (.ok (), between.put name above (.file content))) := by
  have made := disk.touches_makeDirectories path.parent
  unfold write
  cases directories : disk.makeDirectories path.parent with
  | mk outcome between =>
    rw [directories] at made
    refine ⟨between, made, ?_⟩
    cases outcome with
    | error e => exact .inl ⟨e, rfl⟩
    | ok _ =>
      cases put : between.writeIn path content whole with
      | error e => exact .inl ⟨e, by simp only [put]⟩
      | ok after =>
        obtain ⟨name, above, located, free, rfl⟩ := writeIn_eq_ok put
        exact .inr ⟨name, above, located, free, by simp only [put]⟩

/-- Writing a file changes no other, whether it succeeds or not. -/
theorem touches_write (disk : Disk) (path : Path) (content : ByteArray) (whole : Bool) :
    Touches (· = disk.target path) disk (disk.write path content whole).2 := by
  obtain ⟨between, made, ⟨e, eq⟩ | ⟨name, above, located, -, eq⟩⟩ :=
    disk.write_cases path content whole
  · rw [eq]
    exact made.mono fun _ => False.elim
  · rw [eq]
    have same : name :: above = disk.target path := by
      rw [eq_target_of_locate located, target, target, startOf, startOf, made.keeps.here]
    exact (made.mono fun _ => False.elim).trans (same ▸ touches_put name above (.file content))

/-- A write that fails leaves every file as it was. -/
theorem touches_write_of_error {path : Path} {content : ByteArray} {whole : Bool} {e : DiskError}
    {after : Disk} (h : disk.write path content whole = (.error e, after)) :
    Touches (fun _ => False) disk after := by
  obtain ⟨between, made, ⟨_, eq⟩ | ⟨_, _, -, -, eq⟩⟩ := disk.write_cases path content whole
  · obtain ⟨-, rfl⟩ := Prod.mk.inj (h.symm.trans eq)
    exact made
  · cases (Prod.mk.inj (h.symm.trans eq)).1

/-- A file that was written is where its path leads. -/
theorem content_of_write {path : Path} (ends : EndsInName path) {content : ByteArray} {whole : Bool}
    {after : Disk} (h : disk.write path content whole = (.ok (), after)) :
    ∃ place, after.locate path = .ok place ∧ after.content? place = some content := by
  obtain ⟨between, -, ⟨_, eq⟩ | ⟨name, above, located, free, eq⟩⟩ :=
    disk.write_cases path content whole
  · cases (Prod.mk.inj (h.symm.trans eq)).1
  · obtain ⟨-, rfl⟩ := Prod.mk.inj (h.symm.trans eq)
    obtain ⟨named, directory⟩ := isName_of_locate ends located
    refine ⟨name :: above, (touches_put name above (.file content)).keeps.locate located, ?_⟩
    rw [content?, get?_put named directory free, if_pos rfl]

/-! ## Directories that are made -/

section
variable {disk after : Disk} {path : Path} {place : Place}

theorem isDirectoryAt_eq_true : disk.isDirectoryAt path = true ↔
    ∃ place, disk.locate path = .ok place ∧ disk.isDirectory place := by
  unfold isDirectoryAt status
  cases located : disk.locate path with
  | ok place =>
    cases held : disk.get? place with
    | none => simp [isDirectory, held]
    | some entry => cases entry <;> simp [isDirectory, held]
  | error e =>
    cases e with
    | refused why text => cases why <;> simp
    | _ => simp

theorem exists_locate_of_settleDirectory (ends : EndsInName path)
    (h : disk.settleDirectory path = .ok after) :
    ∃ place, after.locate path = .ok place ∧ after.isDirectory place := by
  unfold settleDirectory at h
  split at h
  · rename_i made
    obtain rfl := Except.ok.inj h
    simp only [makeDirectory, bind, Except.bind] at made
    split at made
    · cases made
    · split at made
      · rename_i name above located free
        obtain rfl := Except.ok.inj made
        obtain ⟨named, directory⟩ := isName_of_locate ends located
        have vacant : ¬ disk.isDirectory (name :: above) := by simp [isDirectory, free]
        refine ⟨name :: above, (touches_put name above .directory).keeps.locate located, ?_⟩
        rw [isDirectory_iff, get?_put named directory vacant, if_pos rfl]
      · cases made
  · split at h
    · rename_i there
      obtain rfl := Except.ok.inj h
      exact isDirectoryAt_eq_true.1 there
    · cases h

/-- Where making directories succeeds, the last of them was made or there. -/
theorem exists_settleDirectory {start name : String} {above : List String}
    (h : disk.makeAll start (name :: above) = (.ok (), after)) :
    ∃ between : Disk, between.settleDirectory ⟨start, (name :: above).reverse⟩ = .ok after := by
  simp only [makeAll] at h
  split at h
  · rename_i settled
    obtain ⟨-, rfl⟩ := Prod.mk.inj h
    exact ⟨disk, settled⟩
  · cases made : disk.makeAll start above with
    | mk outcome between =>
      rw [made] at h
      cases outcome with
      | error e => cases (Prod.mk.inj h).1
      | ok _ =>
        dsimp only at h
        split at h
        · rename_i settled
          obtain ⟨-, rfl⟩ := Prod.mk.inj h
          exact ⟨between, settled⟩
        · cases (Prod.mk.inj h).1
  · cases (Prod.mk.inj h).1

/-- A directory that was made is there. -/
theorem exists_locate_of_makeDirectories (ends : EndsInName path)
    (h : disk.makeDirectories path = (.ok (), after)) :
    ∃ place, after.locate path = .ok place ∧ after.isDirectory place := by
  have ⟨front, last, names, _⟩ := ends
  have reversed : path.names.reverse = last :: front.reverse := by rw [names]; simp
  rw [makeDirectories, reversed] at h
  obtain ⟨between, settled⟩ := exists_settleDirectory h
  have whole : (⟨path.start, (last :: front.reverse).reverse⟩ : Path) = path := by
    rw [← reversed, List.reverse_reverse]
  exact exists_locate_of_settleDirectory ends (whole ▸ settled)

/-- A directory that is there need not be made. -/
theorem makeDirectories_of_isDirectory (located : disk.locate path = .ok place)
    (directory : disk.isDirectory place) : disk.makeDirectories path = (.ok (), disk) := by
  have there := isDirectory_iff.1 directory
  have settled : disk.settleDirectory path = .ok disk := by
    have refused : disk.makeDirectory path = .error (.refused .alreadyThere path.text) := by
      simp only [makeDirectory, located, there, bind, Except.bind]
      rfl
    have at' : disk.isDirectoryAt path = true := isDirectoryAt_eq_true.2 ⟨place, located, directory⟩
    simp only [settleDirectory, refused, at', if_true]
  cases reversed : path.names.reverse with
  | nil => simp only [makeDirectories, reversed, makeAll]
  | cons last front =>
    have whole : (⟨path.start, (last :: front).reverse⟩ : Path) = path := by
      rw [← reversed, List.reverse_reverse]
    simp only [makeDirectories, reversed, makeAll, whole, settled]

/-- A file goes into a directory that is there, if its name and its path are short enough. -/
theorem write_of_isDirectory {name : String} {content : ByteArray} {whole : Bool}
    (named : isName name = true) (located : disk.locate path = .ok place)
    (directory : disk.isDirectory place) (vacant : ¬ disk.isDirectory (name :: place))
    (short : isTooLong name = false) (shortPath : isTooLongPath (path.extend [name]).text = false)
    (first : whole = true → disk.isTooLongTemporary (path.extend [name]) = false) :
    disk.write (path.extend [name]) content whole = (.ok (), disk.put name place (.file content)) ∧
      disk.locate (path.extend [name]) = .ok (name :: place) := by
  have parent : (path.extend [name]).parent = path := by simp [Path.extend, Path.parent]
  have straight : name ≠ ".." := by
    rintro rfl
    exact absurd named (by decide)
  obtain ⟨noNull, -, walked⟩ := locate_eq_ok.1 located
  have here : disk.locate (path.extend [name]) = .ok (name :: place) := by
    refine locate_eq_ok.2 ⟨?_, shortPath, ?_⟩
    · rw [Path.extend, List.any_append, noNull]
      simp [Path.not_hasChar_of_isName named]
    · exact (walk_append_of_ok walked [name]).trans (by simp [walk, directory, straight, short])
  refine ⟨?_, here⟩
  have fits : (whole && disk.isTooLongTemporary (path.extend [name]) &&
      !Text.hasChar '\x00' (path.extend [name]).name) = false := by
    cases whole with
    | false => rfl
    | true => rw [first rfl]; rfl
  have put : disk.writeIn (path.extend [name]) content whole =
      .ok (disk.put name place (.file content)) := by
    simp [writeIn, fits, here, vacant, bind, Except.bind, pure, Except.pure]
  simp only [write, parent, makeDirectories_of_isDirectory located directory, put]

end

end Disk
end Scaffold
