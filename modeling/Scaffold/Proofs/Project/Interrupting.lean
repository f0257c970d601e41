import Scaffold.Proofs.Project.Effects

/-!
# What interrupts work on the files of a project

Most operations that do not succeed are failures, which a run reports before it goes on. Two kinds
of paths do more: `Hinders` lists those that no disk can deal with, and a look whether a file is
there also ends where its path leads out of the project (`Project.fileExists_error`).
-/

namespace Scaffold
set_option autoImplicit false

namespace Path

/-- A path with a name that is too long, or too long as a whole. -/
def IsTooLong (path : Path) : Prop :=
  isTooLongPath path.text = true ∨ ∃ name ∈ path.names, isTooLong name = true

/-- A path with a null character. -/
def HasNull (path : Path) : Prop := path.names.any (Text.hasChar '\x00') = true

theorem HasNull.of_subset {path longer : Path} (h : path.HasNull)
    (within : path.names ⊆ longer.names) : longer.HasNull := by
  obtain ⟨name, mem, null⟩ := List.any_eq_true.1 h
  exact List.any_eq_true.2 ⟨name, within mem, null⟩

end Path

namespace Disk

variable {disk after : Disk} {path : Path}

theorem walk_tooLong {place : Place} {names : List String}
    (h : disk.walk place names = .error .nameTooLong) :
    ∃ name ∈ names, isTooLong name = true := by
  induction names generalizing place with
  | nil => cases h
  | cons name rest ih =>
    unfold walk at h
    split at h
    · split at h
      · obtain ⟨other, mem, long⟩ := ih h
        exact ⟨other, List.mem_cons_of_mem _ mem, long⟩
      · split at h
        · rename_i long
          exact ⟨name, List.mem_cons_self .., long⟩
        · obtain ⟨other, mem, long⟩ := ih h
          exact ⟨other, List.mem_cons_of_mem _ mem, long⟩
    · split at h <;> cases h

theorem locate_tooLong {text : String}
    (h : disk.locate path = .error (.refused .nameTooLong text)) :
    text = path.text ∧ path.IsTooLong := by
  unfold locate at h
  split at h
  · cases h
  · split at h
    · rename_i long
      cases h
      exact ⟨rfl, .inl long⟩
    · cases walked : disk.walk (disk.startOf path) path.names with
      | ok place =>
        rw [walked] at h
        cases h
      | error why =>
        rw [walked, mapError_error] at h
        cases h
        exact ⟨rfl, .inr (walk_tooLong walked)⟩

/-- What stands at a path can be told, unless the path is too long. -/
theorem status_error {e : DiskError} (h : disk.status path = .error e) :
    e = .refused .nameTooLong path.text ∧ path.IsTooLong := by
  unfold status at h
  split at h
  · cases h
  · rename_i text located
    obtain ⟨rfl, long⟩ := locate_tooLong located
    exact ⟨(Except.error.inj h).symm, long⟩
  · cases h

theorem read_null (h : disk.read path = .error .nullCharacter) : path.HasNull := by
  simp only [read, bind, Except.bind] at h
  cases located : disk.locate path with
  | error e =>
    rw [located] at h
    obtain rfl := Except.error.inj h
    exact locate_eq_null.1 located
  | ok place =>
    rw [located] at h
    dsimp only at h
    split at h <;> cases h

theorem settleDirectory_null (h : disk.settleDirectory path = .error .nullCharacter) :
    path.HasNull := by
  unfold settleDirectory at h
  split at h
  · cases h
  · rename_i e made
    split at h
    · cases h
    · obtain rfl := Except.error.inj h
      simp only [makeDirectory, bind, Except.bind] at made
      cases located : disk.locate path with
      | error e =>
        rw [located] at made
        obtain rfl := Except.error.inj made
        exact locate_eq_null.1 located
      | ok place =>
        rw [located] at made
        dsimp only at made
        split at made <;> cases made

theorem makeAll_null {start : String} {names : List String}
    (h : (disk.makeAll start names).1 = .error .nullCharacter) :
    (Path.mk start names).HasNull := by
  induction names with
  | nil => cases h
  | cons name above ih =>
    have here {d : Disk}
        (settled : d.settleDirectory ⟨start, (name :: above).reverse⟩ = .error .nullCharacter) :
        (Path.mk start (name :: above)).HasNull :=
      (settleDirectory_null settled).of_subset fun _ => List.mem_reverse.1
    unfold makeAll at h
    dsimp only at h
    split at h
    · cases h
    · cases made : disk.makeAll start above with
      | mk outcome between =>
        rw [made] at h ih
        cases outcome with
        | error e => exact (ih h).of_subset (List.subset_cons_self ..)
        | ok _ =>
          dsimp only at h
          split at h
          · cases h
          · rename_i settled
            obtain rfl := Except.error.inj h
            exact here settled
    · rename_i settled
      obtain rfl := Except.error.inj h
      exact here settled

theorem makeDirectories_null (h : (disk.makeDirectories path).1 = .error .nullCharacter) :
    path.HasNull :=
  (makeAll_null h).of_subset fun _ => List.mem_reverse.1

theorem writeIn_null {content : ByteArray} {whole : Bool}
    (h : disk.writeIn path content whole = .error .nullCharacter) :
    path.HasNull := by
  simp only [writeIn, bind, Except.bind] at h
  split at h
  · cases h
  · cases located : disk.locate path with
    | error e =>
      rw [located] at h
      obtain rfl := Except.error.inj h
      exact locate_eq_null.1 located
    | ok place =>
      rw [located] at h
      dsimp only at h
      split at h
      · cases whole <;> cases h
      · cases place <;> cases h

theorem write_null {content : ByteArray} {whole : Bool}
    (h : (disk.write path content whole).1 = .error .nullCharacter) :
    path.HasNull := by
  unfold write at h
  cases made : disk.makeDirectories path.parent with
  | mk outcome between =>
    rw [made] at h
    cases outcome with
    | error e =>
      obtain rfl := Except.error.inj h
      have above : (disk.makeDirectories path.parent).1 = .error .nullCharacter := by rw [made]
      exact (makeDirectories_null above).of_subset (List.dropLast_subset _)
    | ok _ =>
      dsimp only at h
      split at h
      · cases h
      · rename_i put
        obtain rfl := Except.error.inj h
        exact writeIn_null put

end Disk

/-- A path from a root that no disk can deal with, because it is too long or has a null character,
ends what is done with it in one of two ways. -/
inductive Hinders (root : Path) (path : String) : Interruption → Prop where
  | tooLong (long : (root.extend (namesOf path)).IsTooLong) :
      Hinders root path (.disk (.refused .nameTooLong (root.extend (namesOf path)).text))
  | null (null : (root.extend (namesOf path)).HasNull) : Hinders root path (.disk .nullCharacter)

/-- No such end is a failure, of which a run would go on. -/
theorem Hinders.exists_disk {root : Path} {path : String} {cause : Interruption}
    (h : Hinders root path cause) : ∃ error, cause = .disk error := by
  cases h with
  | tooLong long => exact ⟨_, rfl⟩
  | null null => exact ⟨_, rfl⟩

/-- What is done with a path has failed, or it is one that no disk can deal with. -/
def FailsOrHinders (root : Path) (path : String) (cause : Interruption) : Prop :=
  (∃ f, cause = .failure f) ∨ Hinders root path cause

theorem FailsOrHinders.hinders {root : Path} {path : String} {cause : Interruption}
    (h : FailsOrHinders root path cause) (hard : ∀ f, cause ≠ .failure f) :
    Hinders root path cause := by
  rcases h with ⟨f, rfl⟩ | hinders
  · exact absurd rfl (hard f)
  · exact hinders

/-- A path leads out of the project in which it is taken. -/
def LeadsOut (path : String) : Prop := (Path.ofText path).isAbsolute = true ∨ ".." ∈ namesOf path

instance (path : String) : Decidable (LeadsOut path) := inferInstanceAs (Decidable (_ ∨ _))

namespace Project

variable {p after : Project} {path : String} {cause : Interruption}

theorem refusal_cases (operation : Operation) (path : String) (e : DiskError) :
    (∃ f, refusal operation path e = .failure f) ∨ e = .nullCharacter ∧
    refusal operation path e = .disk .nullCharacter := by
  cases e with
  | nullCharacter => exact .inr ⟨rfl, rfl⟩
  | refused why text => exact .inl ⟨_, rfl⟩
  | refusedOnto why text target => exact .inl ⟨_, rfl⟩

theorem failsOrHinders_refusal {operation : Operation} {e : DiskError} {root : Path}
    (null : e = .nullCharacter → (root.extend (namesOf path)).HasNull) :
    FailsOrHinders root path (refusal operation path e) := by
  rcases refusal_cases operation path e with failed | ⟨isNull, eq⟩
  · exact .inl failed
  · rw [eq]
    exact .inr (.null (null isNull))

theorem resolve_eq_error {f : IOFailure} :
    p.resolve path = .error f ↔ LeadsOut path ∧ f = ⟨.resolve, path, .outsideRoot⟩ := by
  unfold resolve
  dsimp only
  split
  · rename_i outside
    simp only [Bool.or_eq_true, List.contains_iff_mem] at outside
    rw [Except.error.injEq, eq_comm, and_iff_right (show LeadsOut path from outside)]
  · rename_i inside
    simp only [Bool.or_eq_true, List.contains_iff_mem] at inside
    exact iff_of_false nofun fun h => inside h.1

/-- A look at what stands somewhere ends at a path that leads out of the project, or is too long. -/
theorem status_error (h : p.status path = .error cause) :
    (LeadsOut path ∧ cause = .failure ⟨.resolve, path, .outsideRoot⟩) ∨
    Hinders p.root path cause := by
  simp only [status, bind, Except.bind] at h
  cases resolves : p.resolve path with
  | error f =>
    rw [resolves] at h
    obtain ⟨out, rfl⟩ := resolve_eq_error.1 resolves
    exact .inl ⟨out, (Except.error.inj h).symm⟩
  | ok resolved =>
    rw [resolves] at h
    obtain ⟨-, -, rfl⟩ := resolve_eq_ok.1 resolves
    dsimp only [mapError_ok] at h
    cases found : p.disk.status (p.root.extend (namesOf path)) with
    | ok entry =>
      rw [found] at h
      cases h
    | error e =>
      rw [found] at h
      obtain ⟨rfl, long⟩ := Disk.status_error found
      obtain rfl := Except.error.inj h
      exact .inr (.tooLong long)

theorem fileExists_error (h : p.fileExists path = .error cause) :
    (LeadsOut path ∧ cause = .failure ⟨.resolve, path, .outsideRoot⟩) ∨ Hinders p.root path cause :=
  status_error (map_eq_error.1 h)

/-- At a path that leads out of the project no look succeeds. -/
theorem fileExists_of_leadsOut (out : LeadsOut path) :
    p.fileExists path = .error (.failure ⟨.resolve, path, .outsideRoot⟩) := by
  have resolves : p.resolve path = .error ⟨.resolve, path, .outsideRoot⟩ :=
    resolve_eq_error.2 ⟨out, rfl⟩
  simp only [fileExists, status, resolves, mapError_error, bind, Except.bind]
  rfl

theorem failsOrHinders_of_fileExists (h : p.fileExists path = .error cause) :
    FailsOrHinders p.root path cause :=
  (fileExists_error h).imp_left fun out => ⟨_, out.2⟩

theorem failsOrHinders_of_isDirectory (h : p.isDirectory path = .error cause) :
    FailsOrHinders p.root path cause :=
  (status_error (map_eq_error.1 h)).imp_left fun out => ⟨_, out.2⟩

theorem operation_of_permit {operation : Operation} {f : IOFailure}
    (h : p.permit operation path = .error (.failure f)) :
    f.operation = operation := by
  unfold permit at h
  split at h
  · obtain rfl := Interruption.failure.inj (Except.error.inj h)
    rfl
  · cases h

theorem operation_of_refusal {operation : Operation} {e : DiskError} {f : IOFailure}
    (h : refusal operation path e = .failure f) :
    f.operation = operation := by
  cases e with
  | nullCharacter => cases h
  | refused why text =>
    obtain rfl := Interruption.failure.inj h
    rfl
  | refusedOnto why text target =>
    obtain rfl := Interruption.failure.inj h
    rfl

/-- What is read fails as such, or its path leads out of the project or is one that no disk can deal
with. -/
theorem read_error_cases (h : p.read path = .error cause) :
    (∃ f, f.operation = .read ∧ cause = .failure f) ∨
    (LeadsOut path ∧ cause = .failure ⟨.resolve, path, .outsideRoot⟩) ∨
    Hinders p.root path cause := by
  rcases p.permit_cases .read path with permitted | ⟨f, denied⟩
  · simp only [read, permitted, bind, Except.bind] at h
    cases resolves : p.resolve path with
    | error f =>
      rw [resolves] at h
      obtain ⟨out, rfl⟩ := resolve_eq_error.1 resolves
      exact .inr (.inl ⟨out, (Except.error.inj h).symm⟩)
    | ok resolved =>
      rw [resolves] at h
      obtain ⟨-, -, rfl⟩ := resolve_eq_ok.1 resolves
      dsimp only [mapError_ok] at h
      cases found : p.disk.read (p.root.extend (namesOf path)) with
      | ok content =>
        rw [found] at h
        cases h
      | error e =>
        rw [found] at h
        obtain rfl := Except.error.inj h
        rcases refusal_cases .read path e with ⟨f, failed⟩ | ⟨rfl, eq⟩
        · exact .inl ⟨f, operation_of_refusal failed, failed⟩
        · rw [eq]
          exact .inr (.inr (.null (Disk.read_null found)))
  · simp only [read, denied, bind, Except.bind] at h
    exact .inl ⟨f, operation_of_permit denied, (Except.error.inj h).symm⟩

theorem read_error (h : p.read path = .error cause) : FailsOrHinders p.root path cause := by
  rcases read_error_cases h with ⟨f, -, failed⟩ | ⟨-, failed⟩ | hinders
  · exact .inl ⟨f, failed⟩
  · exact .inl ⟨_, failed⟩
  · exact .inr hinders

theorem readText_error (h : p.readText path = .error cause) : FailsOrHinders p.root path cause := by
  simp only [readText, bind, Except.bind] at h
  cases found : p.read path with
  | error e =>
    rw [found] at h
    obtain rfl := Except.error.inj h
    exact read_error found
  | ok content =>
    rw [found] at h
    dsimp only at h
    cases decoded : Text.Utf8.decode content with
    | ok text =>
      rw [decoded] at h
      cases h
    | error e =>
      rw [decoded] at h
      exact .inl ⟨_, (Except.error.inj h).symm⟩

theorem write_error {content : ByteArray} (h : (p.write path content).1 = .error cause) :
    FailsOrHinders p.root path cause := by
  rcases p.permit_cases .write path with permitted | ⟨f, denied⟩
  · cases resolves : p.resolve path with
    | error f =>
      simp only [write, permitted, resolves, mapError_error, bind, Except.bind] at h
      exact .inl ⟨f, (Except.error.inj h).symm⟩
    | ok resolved =>
      simp only [write, permitted, resolves, mapError_ok, bind, Except.bind] at h
      obtain ⟨-, -, rfl⟩ := resolve_eq_ok.1 resolves
      cases written : p.disk.write (p.root.extend (namesOf path)) content p.whole with
      | mk outcome disk =>
        rw [written] at h
        cases outcome with
        | ok _ => cases h
        | error e =>
          obtain rfl := Except.error.inj h
          refine failsOrHinders_refusal ?_
          rintro rfl
          exact Disk.write_null (by rw [written])
  · simp only [write, denied, bind, Except.bind] at h
    exact .inl ⟨f, (Except.error.inj h).symm⟩

theorem delete_error (h : p.delete path = .error cause) : FailsOrHinders p.root path cause := by
  rcases p.delete_cases path with ⟨_, -, -, -, eq⟩ | eq | ⟨f, eq⟩ | ⟨-,
    ⟨resolved, resolves, null⟩, eq⟩
  · cases (h.symm.trans eq)
  · cases (h.symm.trans eq)
  · exact .inl ⟨f, Except.error.inj (h.symm.trans eq)⟩
  · obtain rfl := Except.error.inj (h.symm.trans eq)
    obtain ⟨-, -, rfl⟩ := resolve_eq_ok.1 resolves
    exact .inr (.null (Disk.locate_eq_null.1 null))

theorem makeDirectory_error (h : (p.makeDirectory path).1 = .error cause) :
    FailsOrHinders p.root path cause := by
  unfold makeDirectory at h
  split at h
  · exact .inl ⟨_, (Except.error.inj h).symm⟩
  · rename_i resolved resolves
    obtain ⟨-, -, rfl⟩ := resolve_eq_ok.1 resolves
    cases made : p.disk.makeDirectories (p.root.extend (namesOf path)) with
    | mk outcome disk =>
      rw [made] at h
      cases outcome with
      | ok _ => cases h
      | error e =>
        obtain rfl := Except.error.inj h
        refine failsOrHinders_refusal ?_
        rintro rfl
        exact Disk.makeDirectories_null (by rw [made])

/-- A search by pattern fails as such, or the text is none that can be searched for. -/
theorem glob_error {pattern : String} (h : p.glob pattern = .error cause) :
    (∃ f, f.operation = .glob ∧ cause = .failure f) ∨
      ∃ wrong, Glob.ofText pattern = .error wrong ∧ wrong ≠ .depthInName ∧
      cause = .pattern wrong := by
  rcases p.permit_cases .glob pattern with permitted | ⟨f, denied⟩
  · simp only [glob, permitted, bind, Except.bind] at h
    split at h
    · rename_i glob _
      cases found : p.disk.glob p.root glob with
      | ok files =>
        rw [found] at h
        cases h
      | error e =>
        rw [found] at h
        obtain ⟨text, rfl⟩ := Disk.glob_error found
        exact .inl ⟨_, rfl, (Except.error.inj h).symm⟩
    · exact .inl ⟨_, rfl, (Except.error.inj h).symm⟩
    · exact .inl ⟨_, rfl, (Except.error.inj h).symm⟩
    · rename_i wrong _ whole spelled
      exact .inr ⟨wrong, spelled, whole, (Except.error.inj h).symm⟩
  · simp only [glob, denied, bind, Except.bind] at h
    exact .inl ⟨f, operation_of_permit denied, (Except.error.inj h).symm⟩

variable {f : IOFailure}

end Project

theorem Operation.eq_of_take_name :
    ∀ a b : Operation, a.name.toList.take 3 = b.name.toList.take 3 → a = b := by
  intro a b
  cases a <;> cases b <;> decide

/-- The message of a failure tells which operation failed. -/
theorem IOFailure.operation_of_message {f g : IOFailure} (same : f.message = g.message) :
    f.operation = g.operation := by
  have head (f : IOFailure) :
      (f.message.toList.drop 10).take 3 = f.operation.name.toList.take 3 := by
    have front : "Failed to ".toList.length = 10 := by decide
    have long : 3 ≤ f.operation.name.toList.length := by cases f.operation <;> decide
    have parts : f.message = "Failed to " ++ f.operation.name ++ " " ++ f.path ++ ": " ++
      f.cause.message := by rfl
    simp only [parts, String.toList_append, List.append_assoc]
    rw [← front, List.drop_left, List.take_append_of_le_length long]
  exact Operation.eq_of_take_name _ _ (by rw [← head f, ← head g, same])

end Scaffold
