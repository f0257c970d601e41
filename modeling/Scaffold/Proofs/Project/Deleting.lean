import Scaffold.Project
import Scaffold.Proofs.Disk.Globbing

/-!
# Deleting files of a project

A deletion takes one file away or changes nothing. A file that a pattern has found is there, so its
deletion either succeeds or is a failure that can be reported; a path that no disk can hold is the
one that interrupts.
-/

namespace Scaffold
set_option autoImplicit false

namespace Disk

/-- What stands somewhere stands in directories all the way. -/
theorem isDirectory_of_below {disk : Disk} {front : List String} {place : Place}
    (below : front ≠ []) (h : (disk.get? (front ++ place)).isSome) : disk.isDirectory place := by
  induction front with
  | nil => exact absurd rfl below
  | cons name rest ih =>
    have directory := isDirectory_above h
    by_cases last : rest = []
    · subst last
      exact directory
    · refine ih last ?_
      have held : disk.get? (rest ++ place) = some .directory := isDirectory_iff.1 directory
      rw [held]
      rfl

/-- The way to what stands on the disk is open, but for names that are too long. -/
theorem walk_of_held {disk : Disk} {names : List String} {above : Place}
    (down : ∀ name ∈ names, name ≠ "..") (h : (disk.get? (names.reverse ++ above)).isSome) :
    disk.walk above names = .ok (names.reverse ++ above) ∨
    disk.walk above names = .error .nameTooLong := by
  induction names generalizing above with
  | nil => exact .inl rfl
  | cons name rest ih =>
    have directory : disk.isDirectory above := isDirectory_of_below (by simp) h
    have straight := down name (List.mem_cons_self ..)
    simp only [walk, if_pos directory, if_neg straight]
    split
    · exact .inr rfl
    · rw [List.reverse_cons, List.append_assoc] at h ⊢
      exact ih (fun other mem => down other (List.mem_cons_of_mem _ mem)) h

/-- Only a null character in a name makes a path one that no disk can hold. -/
theorem locate_eq_null {disk : Disk} {path : Path} :
    disk.locate path = .error .nullCharacter ↔ path.names.any (Text.hasChar '\x00') = true := by
  rw [locate]
  split
  · rename_i null
    simp only [null]
  · rename_i named
    refine iff_of_false ?_ named
    split
    · simp
    · cases disk.walk (disk.startOf path) path.names <;> simp

theorem locate_error {disk : Disk} {path : Path} {e : DiskError} (h : disk.locate path = .error e) :
    e = .nullCharacter ∨ ∃ why text, e = .refused why text := by
  rw [locate] at h
  split at h
  · exact .inl (Except.error.inj h).symm
  · split at h
    · exact .inr ⟨_, _, (Except.error.inj h).symm⟩
    · cases walked : disk.walk (disk.startOf path) path.names with
      | ok place => simp [walked] at h
      | error why =>
        simp only [walked, mapError_error, Except.error.injEq] at h
        exact .inr ⟨_, _, h.symm⟩

theorem locate_of_walk_error {disk : Disk} {path : Path} {why : Refusal}
    (named : path.names.any (Text.hasChar '\x00') = false) (short : isTooLongPath path.text = false)
    (h : disk.walk (disk.startOf path) path.names = .error why) :
    disk.locate path = .error (.refused why path.text) := by
  simp only [locate, named, short, h, Bool.false_eq_true, if_false]
  rfl

/-- The way on from a place to what stands below it is open, unless it is too long. -/
theorem locate_extend_of_held {disk : Disk} {path : Path} {above : Place} {names : List String}
    (located : disk.locate path = .ok above) (held : (disk.get? (names.reverse ++ above)).isSome) :
    disk.locate (path.extend names) = .ok (names.reverse ++ above) ∨
      ∃ text, disk.locate (path.extend names) = .error (.refused .nameTooLong text) := by
  obtain ⟨named, -, start⟩ := locate_eq_ok.1 located
  have areNames : ∀ name ∈ names, isName name :=
    fun name mem => names_of_get? held name (by simp [mem])
  have down : ∀ name ∈ names, name ≠ ".." := by
    rintro name mem rfl
    exact absurd (areNames ".." mem) (by decide)
  have noNull : (path.extend names).names.any (Text.hasChar '\x00') = false := by
    rw [Path.extend, List.any_append, named, Bool.false_or, List.any_eq_false]
    intro name mem
    rw [Path.not_hasChar_of_isName (areNames name mem)]
    exact Bool.false_ne_true
  have walked : disk.walk (disk.startOf (path.extend names)) (path.extend names).names =
    disk.walk above names :=
    walk_append_of_ok start names
  by_cases long : isTooLongPath (path.extend names).text = true
  · refine .inr ⟨(path.extend names).text, ?_⟩
    rw [locate, if_neg (by rw [noNull]; exact Bool.false_ne_true), if_pos long]
  · rcases walk_of_held down held with inside | tooLong
    · exact .inl (locate_eq_ok.2 ⟨noNull, by simpa using long, walked.trans inside⟩)
    · exact .inr ⟨_, locate_of_walk_error noNull (by simpa using long) (walked.trans tooLong)⟩

theorem delete_of_locate {disk : Disk} {path : Path} {place : Place}
    (h : disk.locate path = .ok place) (file : disk.isFile place) :
    disk.delete path = .ok (disk.remove place) := by
  cases held : disk.get? place with
  | none => simp [isFile, held] at file
  | some entry =>
    cases entry with
    | directory => simp [isFile, held] at file
    | file content => simp [delete, h, held, bind, Except.bind, pure, Except.pure]

theorem delete_of_not_located {disk : Disk} {path : Path} {e : DiskError}
    (h : disk.locate path = .error e) : disk.delete path = .error e := by
  simp [delete, h, bind, Except.bind]

/-- A deletion takes away the file to which a path leads. Without one it is refused, or the path is
one that no disk can hold. -/
theorem delete_cases (disk : Disk) (path : Path) :
    (∃ place, disk.locate path = .ok place ∧ disk.isFile place ∧
      disk.delete path = .ok (disk.remove place)) ∨
      (∃ why text, disk.delete path = .error (.refused why text)) ∨
      disk.locate path = .error .nullCharacter ∧ disk.delete path = .error .nullCharacter := by
  cases located : disk.locate path with
  | error e =>
    have refused := delete_of_not_located located
    rcases locate_error located with rfl | ⟨why, text, rfl⟩
    · exact .inr (.inr ⟨rfl, refused⟩)
    · exact .inr (.inl ⟨why, text, refused⟩)
  | ok place =>
    by_cases file : disk.isFile place
    · exact .inl ⟨place, rfl, file, delete_of_locate located file⟩
    · refine .inr (.inl ?_)
      simp only [delete, located, bind, Except.bind]
      split
      · rename_i held
        simp [isFile, held] at file
      · exact ⟨_, _, rfl⟩
      · exact ⟨_, _, rfl⟩

end Disk

namespace Project

/-- The place that a path names, if the way there is open. -/
def place? (p : Project) (path : String) : Option Place :=
  (p.resolve path).toOption.bind fun resolved => (p.disk.locate resolved).toOption

/-- A pattern could have found the path: it is normal, and there is a file where its names lead from
the root. -/
def Holds (p : Project) (path : String) : Prop :=
  Path.IsNormal path ∧ ∃ above, p.disk.locate p.root = .ok above ∧
    p.disk.isFile ((Text.split '/' path).reverse ++ above)

variable {p : Project} {path : String}

theorem place?_eq_some {place : Place} :
    p.place? path = some place ↔ ∃ resolved, p.resolve path = .ok resolved ∧
    p.disk.locate resolved = .ok place := by
  unfold place?
  cases p.resolve path with
  | error f => simp [Except.toOption]
  | ok resolved =>
    cases located : p.disk.locate resolved <;> simp [Except.toOption, located]

theorem resolve_of_normal (p : Project) (normal : Path.IsNormal path) :
    p.resolve path = .ok (p.root.extend (Text.split '/' path)) := by
  have down : ".." ∉ Text.split '/' path := fun mem => (normal _ mem).2.2 rfl
  simp [resolve, Path.ofText_of_normal normal, Path.isAbsolute, down]

/-- A normal path names a place below that of the root. -/
theorem place_of_normal (normal : Path.IsNormal path) {place : Place}
    (h : p.place? path = some place) :
    ∃ above, p.disk.walk (p.disk.startOf p.root) p.root.names = .ok above ∧
      place = (Text.split '/' path).reverse ++ above := by
  obtain ⟨resolved, resolves, located⟩ := place?_eq_some.1 h
  rw [p.resolve_of_normal normal] at resolves
  obtain rfl := Except.ok.inj resolves
  obtain ⟨-, -, walked⟩ := Disk.locate_eq_ok.1 located
  obtain ⟨above, root, inside⟩ := Disk.walk_append.1 walked
  exact ⟨above, root, Disk.eq_of_walk (fun name mem => (normal name mem).2.2) inside⟩

/-- Different normal paths name different places. -/
theorem place?_inj {other : String} (normal : Path.IsNormal path)
    (otherNormal : Path.IsNormal other) {place : Place}
    (h : p.place? path = some place) (same : p.place? other = some place) : path = other := by
  obtain ⟨above, root, eq⟩ := place_of_normal normal h
  obtain ⟨above', root', eq'⟩ := place_of_normal otherNormal same
  obtain rfl := Except.ok.inj (root.symm.trans root')
  have names := List.reverse_injective (List.append_cancel_right (eq.symm.trans eq'))
  rw [← Text.join_split path, names, Text.join_split]

/-- Taking files away leaves the places of paths alone. -/
theorem place?_without {gone : List Place} {disk : Disk} (without : Disk.Without gone p.disk disk)
    (path : String) : place? { p with disk } path = p.place? path := by
  refine Option.ext fun place => ?_
  rw [place?_eq_some, place?_eq_some]
  exact exists_congr fun resolved => and_congr_right fun _ => without.locate

theorem permit_eq_ok {operation : Operation} :
    p.permit operation path = .ok () ↔ ∀ d ∈ p.denials,
    ¬ (d.operation = operation ∧ d.path = path) := by
  unfold permit
  split
  · rename_i d found
    have fits := List.find?_some found
    simp only [Bool.and_eq_true, decide_eq_true_eq, beq_iff_eq] at fits
    simp only [reduceCtorEq, false_iff, not_forall, not_not]
    exact ⟨d, List.mem_of_find?_eq_some found, fits⟩
  · rename_i absent
    have apart := List.find?_eq_none.1 absent
    simp only [Bool.and_eq_true, decide_eq_true_eq, beq_iff_eq] at apart
    simpa using apart

theorem permit_cases (p : Project) (operation : Operation) (path : String) :
    p.permit operation path = .ok () ∨ ∃ f, p.permit operation path = .error (.failure f) := by
  unfold permit
  split
  · exact .inr ⟨_, rfl⟩
  · exact .inl rfl

theorem delete_of_resolved {resolved : Path} (permitted : p.permit .delete path = .ok ())
    (resolves : p.resolve path = .ok resolved) :
    p.delete path = match p.disk.delete resolved with
      | .ok disk => .ok (true, { p with disk })
      | .error (.refused .missing _) => .ok (false, p)
      | .error e => .error (refusal .delete path e) := by
  simp only [delete, permitted, resolves, bind, Except.bind, mapError_ok]
  cases p.disk.delete resolved with
  | ok disk => rfl
  | error e =>
    cases e with
    | refused why text => cases why <;> rfl
    | refusedOnto why text target => rfl
    | nullCharacter => rfl

theorem delete_of_denied {f : IOFailure} (denied : p.permit .delete path = .error (.failure f)) :
    p.delete path = .error (.failure f) := by
  simp [delete, denied, bind, Except.bind]

/-- What a deletion can do. -/
theorem delete_cases (p : Project) (path : String) :
    (∃ place, p.permit .delete path = .ok () ∧ p.place? path = some place ∧ p.disk.isFile place ∧
        p.delete path = .ok (true, { p with disk := p.disk.remove place })) ∨
      p.delete path = .ok (false, p) ∨ (∃ f, p.delete path = .error (.failure f)) ∨
      p.permit .delete path = .ok () ∧ (∃ resolved, p.resolve path = .ok resolved ∧
        p.disk.locate resolved = .error .nullCharacter) ∧
        p.delete path = .error (.disk .nullCharacter) := by
  rcases p.permit_cases .delete path with permitted | ⟨f, denied⟩
  · cases resolves : p.resolve path with
    | error f =>
      have failed : p.delete path = .error (.failure f) := by
        simp [delete, permitted, resolves, bind, Except.bind]
      exact .inr (.inr (.inl ⟨f, failed⟩))
    | ok resolved =>
      rcases p.disk.delete_cases resolved with ⟨place, located, file, gone⟩ | ⟨why, text,
        refused⟩ | ⟨null, refused⟩
      · refine .inl ⟨place, permitted, place?_eq_some.2 ⟨resolved, resolves, located⟩, file, ?_⟩
        rw [delete_of_resolved permitted resolves, gone]
      · rw [delete_of_resolved permitted resolves, refused]
        cases why
        case missing => exact .inr (.inl rfl)
        all_goals exact .inr (.inr (.inl ⟨_, rfl⟩))
      · refine .inr (.inr (.inr ⟨permitted, ⟨resolved, rfl, null⟩, ?_⟩))
        rw [delete_of_resolved permitted resolves, refused]
        rfl
  · exact .inr (.inr (.inl ⟨f, delete_of_denied denied⟩))

/-- A deletion is interrupted exactly for a path with a null character that is not refused
before. -/
theorem delete_eq_null (normal : Path.IsNormal path) :
    p.delete path = .error (.disk .nullCharacter) ↔
      (∀ d ∈ p.denials, ¬ (d.operation = .delete ∧ d.path = path)) ∧
        (p.root.names ++ Text.split '/' path).any (Text.hasChar '\x00') = true := by
  have resolves := p.resolve_of_normal normal
  have names :
    (p.root.extend (Text.split '/' path)).names = p.root.names ++ Text.split '/' path := rfl
  rw [← permit_eq_ok, ← names, ← Disk.locate_eq_null]
  constructor
  · intro interrupted
    rcases p.delete_cases path with ⟨_, _, _, _, eq⟩ | eq | ⟨_, eq⟩ | ⟨permitted,
      ⟨resolved, eq, null⟩, _⟩
    · cases (interrupted.symm.trans eq)
    · cases (interrupted.symm.trans eq)
    · cases (interrupted.symm.trans eq)
    · obtain rfl := Except.ok.inj (resolves.symm.trans eq)
      exact ⟨permitted, null⟩
  · rintro ⟨permitted, null⟩
    rw [delete_of_resolved permitted resolves, Disk.delete_of_not_located null]
    rfl

/-- The way to a file that a pattern could have found is open, unless it is too long. -/
theorem Holds.locate (held : p.Holds path) :
    (∃ place, p.place? path = some place ∧ p.disk.isFile place) ∨
      ∃ text, p.disk.locate (p.root.extend (Text.split '/' path)) =
        .error (.refused .nameTooLong text) := by
  obtain ⟨normal, above, located, file⟩ := held
  refine (Disk.locate_extend_of_held located (Disk.isSome_of_isFile file)).imp_left fun inside => ?_
  exact ⟨_, place?_eq_some.2 ⟨_, p.resolve_of_normal normal, inside⟩, file⟩

/-- A deletion of a file that a pattern could have found. -/
theorem Holds.delete (held : p.Holds path) :
    (∃ place, p.permit .delete path = .ok () ∧ p.place? path = some place ∧ p.disk.isFile place ∧
        p.delete path = .ok (true, { p with disk := p.disk.remove place })) ∨
      (∃ f, p.delete path = .error (.failure f)) ∧
      ¬ (p.permit .delete path = .ok () ∧ (p.place? path).isSome) := by
  have resolves := p.resolve_of_normal held.1
  rcases p.permit_cases .delete path with permitted | ⟨f, denied⟩
  · rcases held.locate with ⟨place, here, file⟩ | ⟨text, tooLong⟩
    · obtain ⟨resolved, eq, located⟩ := place?_eq_some.1 here
      refine .inl ⟨place, permitted, here, file, ?_⟩
      rw [delete_of_resolved permitted eq, (Disk.delete_of_locate located file)]
    · refine .inr ⟨⟨⟨.delete, path, .disk (.refused .nameTooLong text)⟩, ?_⟩, ?_⟩
      · rw [delete_of_resolved permitted resolves, Disk.delete_of_not_located tooLong]
        rfl
      · rintro ⟨-, filled⟩
        obtain ⟨place, here⟩ := Option.isSome_iff_exists.1 filled
        obtain ⟨resolved, eq, located⟩ := place?_eq_some.1 here
        obtain rfl := Except.ok.inj (resolves.symm.trans eq)
        cases (tooLong.symm.trans located)
  · refine .inr ⟨⟨f, delete_of_denied denied⟩, ?_⟩
    rintro ⟨permitted, -⟩
    cases (denied.symm.trans permitted)

/-- Whether the deletion of such a file fails hangs on the path alone. -/
theorem Holds.delete_fails_iff (held : p.Holds path) :
    (∃ f, p.delete path = .error (.failure f)) ↔
    ¬ (p.permit .delete path = .ok () ∧ (p.place? path).isSome) := by
  rcases held.delete with ⟨place, permitted, here, -, gone⟩ | ⟨failed, closed⟩
  · refine iff_of_false ?_ fun closed => closed ⟨permitted, by rw [here]; rfl⟩
    rintro ⟨f, failed⟩
    cases (gone.symm.trans failed)
  · exact iff_of_true failed closed

end Project
end Scaffold
