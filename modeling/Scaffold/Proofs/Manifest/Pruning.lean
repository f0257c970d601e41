import Scaffold.Proofs.Manifest.Tracking

/-!
# Files that go when a manifest is saved

Saving a manifest writes its file, and a stamped one enters the history, from which the oldest
entries over the limit go. No other file goes: `Store.loses_save` and `Store.loses_saveToHistory`.
-/

namespace Scaffold
set_option autoImplicit false

namespace Disk

variable {disk before after : Disk} {place : Place}

theorem isFile_iff : disk.isFile place = true ↔ (disk.content? place).isSome = true := by
  unfold isFile content?
  split <;> simp

theorem Touches.isFile {places : Place → Prop} (h : Touches places before after)
    (file : before.isFile place) (spared : ¬ places place) : after.isFile place := by
  rw [isFile_iff] at file ⊢
  rwa [h.contents place spared]

/-- A file that is written stays one. -/
theorem isFile_write {path : Path} {content : ByteArray} {whole : Bool} (file : disk.isFile place) :
    (disk.write path content whole).2.isFile place := by
  obtain ⟨between, made, ⟨e, eq⟩ | ⟨name, above, -, -, eq⟩⟩ := disk.write_cases path content whole
  · rw [eq]
    exact made.isFile file id
  · rw [eq]
    by_cases here : place = name :: above
    · subst here
      have stays := made.isFile file id
      by_cases possible : isName name ∧ between.isDirectory above ∧
        ¬ between.isDirectory (name :: above)
      · rw [Disk.isFile, get?_put possible.1 possible.2.1 possible.2.2, if_pos rfl]
      · rwa [put, dif_neg possible]
    · exact (touches_put name above (.file content)).isFile (made.isFile file id) here

end Disk

namespace Project

/-- Directories are kept, and no file is gone but at some places. -/
structure Loses (lost : Place → Prop) (before after : Project) : Prop where
  same : after = { before with disk := after.disk }
  keeps : Disk.KeepsDirectories before.disk after.disk
  files : ∀ place, before.disk.isFile place → ¬ lost place → after.disk.isFile place

variable {lost : Place → Prop} {p after : Project} {path : String}

theorem Loses.refl (lost : Place → Prop) (p : Project) : Loses lost p p :=
  ⟨rfl, .refl p.disk, fun _ file _ => file⟩

theorem Loses.trans {a b c : Project} (first : Loses lost a b) (second : Loses lost b c) :
    Loses lost a c :=
  ⟨by rw [second.same, first.same], first.keeps.trans second.keeps,
    fun place file kept => second.files place (first.files place file kept) kept⟩

theorem Loses.mono {more : Place → Prop} {before after : Project} (h : Loses lost before after)
    (within : ∀ place, lost place → more place) : Loses more before after :=
  ⟨h.same, h.keeps, fun place file kept => h.files place file (mt (within place) kept)⟩

theorem loses_of_touches {places : Place → Prop} {disk : Disk}
    (touched : Disk.Touches places p.disk disk) :
    Loses places p { p with disk } :=
  ⟨rfl, touched.keeps, fun _ file kept => touched.isFile file kept⟩

/-- Writing a file takes none away. -/
theorem loses_write (lost : Place → Prop) (p : Project) (path : String) (content : ByteArray) :
    Loses lost p (p.write path content).2 := by
  unfold write
  split
  · exact .refl lost p
  · rename_i resolved _
    have touched := p.disk.touches_write resolved content p.whole
    have files :
      ∀ place, p.disk.isFile place → (p.disk.write resolved content p.whole).2.isFile place :=
      fun place file => Disk.isFile_write file
    split <;> rename_i eq <;> rw [eq] at touched files <;>
      exact ⟨rfl, touched.keeps, fun place file _ => files place file⟩

theorem loses_makeDirectory (lost : Place → Prop) (p : Project) (path : String) :
    Loses lost p (p.makeDirectory path).2 := by
  unfold makeDirectory
  split
  · exact .refl lost p
  · rename_i resolved _
    have touched : Disk.Touches lost p.disk (p.disk.makeDirectories resolved).2 :=
      (p.disk.touches_makeDirectories resolved).mono fun _ => False.elim
    split <;> rename_i eq <;> rw [eq] at touched <;> exact loses_of_touches touched

theorem loses_delete {found : Bool} (h : p.delete path = .ok (found, after)) :
    Loses (p.place? path = some ·) p after ∧ ∀ other, after.place? other = p.place? other := by
  rcases p.delete_cases path with ⟨place, -, here, file, eq⟩ | eq | ⟨_, eq⟩ | ⟨-, -, eq⟩
  · obtain ⟨-, rfl⟩ := Prod.mk.inj (Except.ok.inj (h.symm.trans eq))
    refine ⟨(loses_of_touches (Disk.touches_remove file)).mono fun other same => same ▸ here,
      fun other => ?_⟩
    exact place?_without ((Disk.Without.refl p.disk).remove file) other
  · obtain ⟨-, rfl⟩ := Prod.mk.inj (Except.ok.inj (h.symm.trans eq))
    exact ⟨.refl _ _, fun _ => rfl⟩
  · cases h.symm.trans eq
  · cases h.symm.trans eq

end Project

namespace Store

variable {store : Store} {p : Project}

theorem loses_deleteAll (paths : List String) (p : Project) :
    Project.Loses (fun place => ∃ path ∈ paths, p.place? path = some place) p
      (deleteAll paths p).2 := by
  induction paths generalizing p with
  | nil => exact .refl _ p
  | cons path rest ih =>
    unfold deleteAll
    split
    · rename_i between deleted
      obtain ⟨first, same⟩ := Project.loses_delete deleted
      refine (first.mono fun place here => ⟨path, List.mem_cons_self .., here⟩).trans
        ((ih between).mono ?_)
      rintro place ⟨other, mem, here⟩
      exact ⟨other, List.mem_cons_of_mem _ mem, same other ▸ here⟩
    · exact .refl _ p

/-- The file at a place is one of the oldest of the history, over its limit. -/
def IsOver (store : Store) (p : Project) (place : Place) : Prop :=
  ∃ files path, store.historyFiles p = .ok files ∧ path ∈ files.take (store.excess files.length) ∧
    p.place? path = some place

theorem loses_pruneHistory (store : Store) (p : Project) :
    Project.Loses (store.IsOver p) p (store.pruneHistory p).2 := by
  unfold pruneHistory
  split
  · exact .refl _ p
  · rename_i files found
    have deleted :
      Project.Loses (store.IsOver p) p (deleteAll (files.take (store.excess files.length)) p).2 :=
      (loses_deleteAll _ p).mono fun place ⟨path, mem, here⟩ => ⟨files, path, found, mem, here⟩
    dsimp only
    split <;> rename_i eq <;> rw [eq] at deleted <;> exact deleted

/-- A manifest has just been written to the history, which is not yet pruned. -/
def Entered (store : Store) (m : Manifest) (now : Moment) (p written : Project) : Prop :=
  ∃ made free text size, p.makeDirectory store.historyDirectory = (.ok (), made) ∧
    firstFree made (store.historyPaths (historyStem m now) (made.disk.entries.length + 1)) =
      .ok free ∧
    printed (historyEntry m now) = .ok text ∧
    made.writeText (free.getD "") text = (.ok size, written)

/-- The files that go when a manifest enters the history are pruned. -/
theorem loses_saveToHistory (store : Store) (m : Manifest) (now : Moment) (p : Project) :
    Project.Loses (fun place => ∃ written, store.Entered m now p written ∧
      store.IsOver written place) p (store.saveToHistory m now p).2 := by
  have made := p.loses_makeDirectory
    (fun place => ∃ written, store.Entered m now p written ∧
      store.IsOver written place) store.historyDirectory
  unfold saveToHistory
  split <;> rename_i directory <;> rw [directory] at made
  · exact made
  · rename_i between
    dsimp only
    split
    · exact made
    · rename_i free found
      split
      · exact made
      · rename_i text spelled
        have written := made.trans (between.loses_write _ (free.getD "") text.toUTF8)
        rw [← Project.writeText] at written
        split <;> rename_i entry <;> rw [entry] at written
        · exact written
        · rename_i after
          have entered : store.Entered m now p after :=
            ⟨between, free, text, _, directory, found, spelled, entry⟩
          have pruned :=
            written.trans ((store.loses_pruneHistory after).mono fun place surplus =>
              ⟨after, entered, surplus⟩)
          split <;> rename_i old <;> rw [old] at pruned <;> exact pruned

theorem loses_save (lost : Place → Prop) (store : Store) (m : Manifest) (p : Project) :
    Project.Loses lost p (store.save m p).2 := by
  unfold save
  split
  · exact .refl _ p
  · rename_i text _
    have written := p.loses_write lost store.manifestPath text.toUTF8
    rw [← Project.writeText] at written
    split <;> rename_i eq <;> rw [eq] at written <;> exact written

end Store
end Scaffold
