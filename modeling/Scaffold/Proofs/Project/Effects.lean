import Scaffold.Proofs.Disk.Writing
import Scaffold.Proofs.Project.Deleting

/-!
# What work on a project changes

`Project.Touches` says which files of a project may have changed, by their names from its root. A
file `Project.Stands` at a path with its content; it stands there as long as nothing touches its
names.
-/

namespace Scaffold
set_option autoImplicit false

/-- The names of a path, as they are taken from the root of a project. -/
def namesOf (path : String) : List String := (Path.ofText path).names

theorem namesOf_append (front back : String) :
    namesOf (front ++ "/" ++ back) = namesOf front ++ namesOf back :=
  Path.ofText_append_names front back

theorem namesOf_of_normal {path : String} (normal : Path.IsNormal path) :
    namesOf path = Text.split '/' path := by
  rw [namesOf, Path.ofText_of_normal normal]

/-- A text without slashes is one name, unless it stands for nothing. -/
theorem namesOf_of_not_mem {text : String} (h : '/' ∉ text.toList) (filled : text ≠ "")
    (point : text ≠ ".") : namesOf text = [text] := by
  simp [namesOf, Path.ofText, Text.split_of_not_mem h, filled, point]

/-- A text with a character other than slashes and points leads somewhere. -/
theorem namesOf_ne_nil {c : Char} {text : String} (mem : c ∈ text.toList) (slash : c ≠ '/')
    (point : c ≠ '.') : namesOf text ≠ [] := by
  obtain ⟨piece, isPiece, inside⟩ := Text.exists_mem_split slash mem
  have filled : piece ≠ "" := by
    rintro rfl
    exact absurd inside List.not_mem_nil
  have other : piece ≠ "." := by
    rintro rfl
    exact point (List.mem_singleton.1 inside)
  exact List.ne_nil_of_mem (List.mem_filter.2 ⟨isPiece, by simp [filled, other]⟩)

/-- Joined names begin with the names in front. -/
theorem namesOf_join {front : List String} (filled : front ≠ [])
    (named : ∀ name ∈ front, isName name) (more : List String) :
    front <+: namesOf (Text.join "/" (front ++ more)) := by
  obtain ⟨normal, split⟩ := Path.normal_join filled named
  cases more with
  | nil =>
    have whole : namesOf (Text.join "/" (front ++ [])) = front := by
      rw [List.append_nil, namesOf_of_normal normal, split]
    exact ⟨[], by rw [whole, List.append_nil]⟩
  | cons next rest =>
    rw [Text.join_append filled (by simp), namesOf_append, namesOf_of_normal normal, split]
    exact List.prefix_append ..

theorem isName_of_mem_namesOf {path name : String} (mem : name ∈ namesOf path)
    (straight : name ≠ "..") (clear : Text.hasChar '\x00' name = false) : isName name := by
  rw [namesOf, Path.ofText, List.mem_filter] at mem
  have noSlash := Text.not_mem_of_mem_split mem.1
  have noNull : '\x00' ∉ name.toList := by simpa [Text.hasChar] using clear
  simp only [Bool.and_eq_true] at mem
  simp only [isName, Bool.and_eq_true, List.all_eq_true]
  refine ⟨⟨⟨mem.2.1, mem.2.2⟩, by simpa using straight⟩, fun c isIn => ?_⟩
  simp only [ne_eq, decide_not, Bool.not_eq_true', decide_eq_false_iff_not]
  refine ⟨?_, ?_⟩
  · rintro rfl
    exact noSlash isIn
  · rintro rfl
    exact noNull isIn

namespace Project

/-- The content of the file to which names lead from the root of a project. -/
def contentAt (p : Project) (names : List String) : Option ByteArray :=
  p.disk.content? (names.reverse ++ p.disk.target p.root)

/-- Directories are kept, and the files of a project are the same but at some names. -/
structure Touches (touched : List String → Prop) (before after : Project) : Prop where
  same : after = { before with disk := after.disk }
  keeps : Disk.KeepsDirectories before.disk after.disk
  contents : ∀ names, ¬ touched names → after.contentAt names = before.contentAt names

variable {touched : List String → Prop} {p : Project} {path : String}

theorem Touches.refl (touched : List String → Prop) (p : Project) : Touches touched p p :=
  ⟨rfl, .refl p.disk, fun _ _ => rfl⟩

theorem Touches.trans {a b c : Project} (first : Touches touched a b)
    (second : Touches touched b c) : Touches touched a c :=
  ⟨by rw [second.same, first.same], first.keeps.trans second.keeps,
    fun names spared => (second.contents names spared).trans (first.contents names spared)⟩

theorem Touches.mono {more : List String → Prop} {before after : Project}
    (h : Touches touched before after) (within : ∀ names, touched names → more names) :
    Touches more before after :=
  ⟨h.same, h.keeps, fun names spared => h.contents names fun mem => spared (within names mem)⟩

/-- A change of the disk as a change of the project. -/
theorem Touches.of_disk {disk : Disk}
    (h : Disk.Touches (fun place => ∃ names, touched names ∧
      place = names.reverse ++ p.disk.target p.root) p.disk disk) :
    Touches touched p { p with disk } := by
  refine ⟨rfl, h.keeps, fun names spared => ?_⟩
  have base : disk.target p.root = p.disk.target p.root := by
    rw [Disk.target, Disk.target, Disk.startOf, Disk.startOf, h.keeps.here]
  rw [contentAt, contentAt, base]
  refine h.contents _ ?_
  rintro ⟨others, isTouched, eq⟩
  obtain rfl := List.reverse_injective (List.append_cancel_right eq)
  exact spared isTouched

theorem resolve_eq_ok {resolved : Path} :
    p.resolve path = .ok resolved ↔ (Path.ofText path).isAbsolute = false ∧ ".." ∉ namesOf path ∧
      resolved = p.root.extend (namesOf path) := by
  simp only [resolve, namesOf]
  split
  · rename_i outside
    simp only [Bool.or_eq_true, List.contains_iff_mem] at outside
    refine iff_of_false (by simp) ?_
    rintro ⟨relative, down, -⟩
    rcases outside with absolute | up
    · exact absurd (relative.symm.trans absolute) (by decide)
    · exact down up
  · rename_i inside
    simp only [Bool.or_eq_true, List.contains_iff_mem, not_or, Bool.not_eq_true] at inside
    rw [Except.ok.injEq, eq_comm, and_iff_right inside.1, and_iff_right inside.2]

theorem target_of_resolve {resolved : Path} (h : p.resolve path = .ok resolved) :
    p.disk.target resolved = (namesOf path).reverse ++ p.disk.target p.root := by
  obtain ⟨-, down, rfl⟩ := resolve_eq_ok.1 h
  exact Disk.target_extend down

/-- A path in the project with a name ends in it. -/
theorem endsInName_of_resolve {resolved : Path} (named : namesOf path ≠ [])
    (h : p.resolve path = .ok resolved) : Disk.EndsInName resolved := by
  obtain ⟨-, down, rfl⟩ := resolve_eq_ok.1 h
  have last : namesOf path = (namesOf path).dropLast ++ [(namesOf path).getLast named] :=
    (List.dropLast_concat_getLast named).symm
  have straight : (namesOf path).getLast named ≠ ".." := by
    intro up
    exact down (up ▸ List.getLast_mem named)
  refine ⟨p.root.names ++ (namesOf path).dropLast, _, ?_, straight,
    isName_of_mem_namesOf (List.getLast_mem named) straight⟩
  rw [List.append_assoc, ← last]
  rfl

/-- Writing touches the path that is written, and nothing at all where it fails. -/
theorem write_cases (p : Project) (path : String) (content : ByteArray) :
    (∃ e, (p.write path content).1 = .error e ∧
      Touches (fun _ => False) p (p.write path content).2) ∨
      ∃ resolved disk, p.resolve path = .ok resolved ∧
      p.disk.write resolved content p.whole = (.ok (), disk) ∧
        p.write path content = (.ok content.size, { p with disk }) := by
  rcases p.permit_cases .write path with permitted | ⟨f, denied⟩
  · cases resolves : p.resolve path with
    | error f =>
      have eq : p.write path content = (.error (.failure f), p) := by
        simp [write, permitted, resolves, bind, Except.bind]
      exact .inl ⟨_, by rw [eq], by rw [eq]; exact .refl _ p⟩
    | ok resolved =>
      cases written : p.disk.write resolved content p.whole with
      | mk outcome disk =>
        cases outcome with
        | ok _ =>
          have eq : p.write path content = (.ok content.size, { p with disk }) := by
            simp [write, permitted, resolves, written, bind, Except.bind]
          exact .inr ⟨resolved, disk, rfl, written, eq⟩
        | error e =>
          have eq : p.write path content = (.error (refusal .write path e), { p with disk }) := by
            simp [write, permitted, resolves, written, bind, Except.bind]
          refine .inl ⟨_, by rw [eq], ?_⟩
          rw [eq]
          exact .of_disk ((Disk.touches_write_of_error written).mono fun _ => False.elim)
  · have eq : p.write path content = (.error (.failure f), p) := by
      simp [write, denied, bind, Except.bind]
    exact .inl ⟨_, by rw [eq], by rw [eq]; exact .refl _ p⟩

theorem touches_write (p : Project) (path : String) (content : ByteArray) :
    Touches (· = namesOf path) p (p.write path content).2 := by
  rcases p.write_cases path content with ⟨_, -, absent⟩ | ⟨resolved, disk, resolves, written, eq⟩
  · exact absent.mono fun _ => False.elim
  · rw [eq]
    have changed := p.disk.touches_write resolved content p.whole
    rw [written] at changed
    refine .of_disk (changed.mono fun place here => ⟨namesOf path, rfl, ?_⟩)
    rw [here, target_of_resolve resolves]

theorem touches_write_of_error {content : ByteArray} {e : Interruption} {after : Project}
    (h : p.write path content = (.error e, after)) : Touches (fun _ => False) p after := by
  rcases p.write_cases path content with ⟨_, -, absent⟩ | ⟨_, _, -, -, eq⟩
  · rwa [h] at absent
  · cases (Prod.mk.inj (h.symm.trans eq)).1

theorem touches_makeDirectory (p : Project) (path : String) :
    Touches (fun _ => False) p (p.makeDirectory path).2 := by
  unfold makeDirectory
  split
  · exact .refl _ p
  · rename_i resolved _
    have made := p.disk.touches_makeDirectories resolved
    cases outcome : p.disk.makeDirectories resolved with
    | mk result disk =>
      rw [outcome] at made
      cases result <;> exact .of_disk (made.mono fun _ => False.elim)

theorem touches_delete {found : Bool} {after : Project} (h : p.delete path = .ok (found, after)) :
    Touches (· = namesOf path) p after := by
  rcases p.delete_cases path with ⟨place, -, here, file, eq⟩ | eq | ⟨_, eq⟩ | ⟨-, -, eq⟩
  · obtain ⟨-, rfl⟩ := Prod.mk.inj (Except.ok.inj (h.symm.trans eq))
    obtain ⟨resolved, resolves, located⟩ := place?_eq_some.1 here
    refine .of_disk ((Disk.touches_remove file).mono fun other here => ⟨namesOf path, rfl, ?_⟩)
    rw [here, Disk.eq_target_of_locate located, target_of_resolve resolves]
  · obtain ⟨-, same⟩ := Prod.mk.inj (Except.ok.inj (h.symm.trans eq))
    rw [same]
    exact .refl _ p
  · cases (h.symm.trans eq)
  · cases (h.symm.trans eq)

/-- Files may be gone; nothing else has changed. -/
structure Shrinks (before after : Project) : Prop where
  same : after = { before with disk := after.disk }
  keeps : Disk.KeepsDirectories before.disk after.disk
  contents : ∀ names, after.contentAt names = before.contentAt names ∨ after.contentAt names = none

theorem Shrinks.refl (p : Project) : Shrinks p p := ⟨rfl, .refl p.disk, fun _ => .inl rfl⟩

theorem Shrinks.trans {a b c : Project} (first : Shrinks a b) (second : Shrinks b c) :
    Shrinks a c where
  same := by rw [second.same, first.same]
  keeps := first.keeps.trans second.keeps
  contents names := by
    rcases second.contents names with kept | gone
    · rw [kept]
      exact first.contents names
    · exact .inr gone

/-- Where no file has changed, none is new. -/
theorem Touches.shrinks {before after : Project} (h : Touches (fun _ => False) before after) :
    Shrinks before after :=
  ⟨h.same, h.keeps, fun names => .inl (h.contents names not_false)⟩

/-- Where a file was taken away, nothing is left. -/
theorem contentAt_remove {place : Place} (here : p.place? path = some place)
    (file : p.disk.isFile place) :
    contentAt { p with disk := p.disk.remove place } (namesOf path) = none := by
  obtain ⟨resolved, resolves, located⟩ := place?_eq_some.1 here
  have base : (p.disk.remove place).target p.root = p.disk.target p.root := by
    rw [Disk.target, Disk.target, Disk.startOf, Disk.startOf, (Disk.touches_remove file).keeps.here]
  rw [contentAt, base, ← target_of_resolve resolves, ← Disk.eq_target_of_locate located]
  simp only [Disk.content?, Disk.get?_remove file, if_true]

theorem shrinks_delete {found : Bool} {after : Project} (h : p.delete path = .ok (found, after)) :
    Shrinks p after := by
  have touched := touches_delete h
  refine ⟨touched.same, touched.keeps, fun names => ?_⟩
  by_cases here : names = namesOf path
  · subst here
    rcases p.delete_cases path with ⟨place, -, here, file, eq⟩ | eq | ⟨_, eq⟩ | ⟨-, -, eq⟩
    · obtain ⟨-, rfl⟩ := Prod.mk.inj (Except.ok.inj (h.symm.trans eq))
      exact .inr (contentAt_remove here file)
    · obtain ⟨-, same⟩ := Prod.mk.inj (Except.ok.inj (h.symm.trans eq))
      rw [same]
      exact .inl rfl
    · cases (h.symm.trans eq)
    · cases (h.symm.trans eq)
  · exact .inl (touched.contents names here)

/-- What a pattern finds, by its steps. -/
theorem disk_glob_of_glob {pattern : String} {files : List String}
    (h : p.glob pattern = .ok files) :
    ∃ glob, Glob.ofText pattern = .ok glob ∧ p.disk.glob p.root glob = .ok files := by
  simp only [glob, bind, Except.bind] at h
  split at h
  · cases h
  · split at h
    · rename_i glob spelled
      cases found : p.disk.glob p.root glob with
      | error e => simp [found] at h
      | ok list =>
        simp only [found, mapError_ok, Except.ok.injEq] at h
        exact ⟨glob, spelled, by rw [← h, found]⟩
    · cases h
    · cases h
    · cases h

/-- The names of a pattern with names in front. -/
theorem names_of_pattern {front : List String} (filled : front ≠ [])
    (named : ∀ name ∈ front, isName name) (back : String) :
    (Path.ofText (Text.join "/" front ++ "/" ++ back)).names = front ++ namesOf back := by
  obtain ⟨normal, split⟩ := Path.normal_join filled named
  exact (namesOf_append _ _).trans (by rw [namesOf_of_normal normal, split])

/-- Found files begin with the names with which their pattern begins. -/
theorem prefix_of_mem_glob {front : List String} {back : String} (filled : front ≠ [])
    (named : ∀ name ∈ front, isName name)
    (plain : ∀ name ∈ front, Text.has "**" name = false ∧ Pattern.isPattern name = false)
    {files : List String}
    (h : p.glob (Text.join "/" front ++ "/" ++ back) = .ok files) {file : String}
    (mem : file ∈ files) : front <+: namesOf file := by
  obtain ⟨glob, spelled, found⟩ := disk_glob_of_glob h
  obtain ⟨rest, -, steps⟩ := Glob.steps_of_ofText spelled (names_of_pattern filled named back) plain
  obtain ⟨more, rfl⟩ := Disk.exists_of_mem_glob steps found mem
  exact namesOf_join filled named more

/-- Found files end with a name that fits the last name of their pattern. -/
theorem exists_of_mem_glob {front : List String} {last : String} (filled : front ≠ [])
    (named : ∀ name ∈ front, isName name)
    (plain : ∀ name ∈ front, Text.has "**" name = false ∧ Pattern.isPattern name = false)
    (one : namesOf last = [last])
    (more : Pattern.isPattern last = true) (apart : last ≠ "**") {files : List String}
    (h : p.glob (Text.join "/" front ++ "/" ++ last) = .ok files) {file : String}
    (mem : file ∈ files) :
    ∃ name, Pattern.covers last name = true ∧ file = Text.join "/" (front ++ [name]) := by
  obtain ⟨glob, spelled, found⟩ := disk_glob_of_glob h
  obtain ⟨rest, read, steps⟩ :=
    Glob.steps_of_ofText spelled (one ▸ names_of_pattern filled named last) plain
  obtain ⟨step, others, here, there, rfl⟩ := List.forall₂_cons_left_iff.1 (mapM_eq_ok.1 read)
  obtain rfl := List.forall₂_nil_left_iff.1 there
  obtain rfl := Glob.stepOf_of_isPattern more apart here
  exact Disk.exists_of_mem_glob_fitting steps found mem

/-- A file stands at a path. -/
def Stands (p : Project) (path : String) (content : ByteArray) : Prop :=
  ∃ place, p.place? path = some place ∧ p.disk.content? place = some content

theorem Stands.contentAt {content : ByteArray} (h : p.Stands path content) :
    p.contentAt (namesOf path) = some content := by
  obtain ⟨place, here, holds⟩ := h
  obtain ⟨resolved, resolves, located⟩ := place?_eq_some.1 here
  rw [Project.contentAt, ← target_of_resolve resolves, ← Disk.eq_target_of_locate located, holds]

/-- A path keeps its place while directories are kept. -/
theorem place?_of_keeps {before after : Project} (same : after = { before with disk := after.disk })
    (keeps : Disk.KeepsDirectories before.disk after.disk) {place : Place}
    (here : before.place? path = some place) : after.place? path = some place := by
  obtain ⟨resolved, resolves, located⟩ := place?_eq_some.1 here
  have root : after.root = before.root := by rw [same]
  have resolves' : after.resolve path = .ok resolved := by rw [← resolves, resolve, resolve, root]
  exact place?_eq_some.2 ⟨resolved, resolves', keeps.locate located⟩

/-- A file with an open way stands at a path when its names lead to its content. -/
theorem stands_of_contentAt {place : Place} {content : ByteArray}
    (here : p.place? path = some place) (holds : p.contentAt (namesOf path) = some content) :
    p.Stands path content := by
  obtain ⟨resolved, resolves, located⟩ := place?_eq_some.1 here
  refine ⟨place, here, ?_⟩
  rwa [Disk.eq_target_of_locate located, target_of_resolve resolves]

/-- A file that is not touched stays. -/
theorem Stands.of_touches {before after : Project} {content : ByteArray}
    (h : before.Stands path content) (changed : Touches touched before after)
    (spared : ¬ touched (namesOf path)) : after.Stands path content := by
  obtain ⟨place, here, -⟩ := id h
  exact stands_of_contentAt (place?_of_keeps changed.same changed.keeps here)
    ((changed.contents _ spared).trans h.contentAt)

/-- A file that was written stands where it was written. -/
theorem stands_of_write {content : ByteArray} {size : Nat} {after : Project}
    (named : namesOf path ≠ []) (h : p.write path content = (.ok size, after)) :
    after.Stands path content := by
  rcases p.write_cases path content with ⟨_, failed, -⟩ | ⟨resolved, disk, resolves, written, eq⟩
  · rw [h] at failed
    cases failed
  · obtain ⟨-, rfl⟩ := Prod.mk.inj (h.symm.trans eq)
    obtain ⟨place, located, holds⟩ :=
      Disk.content_of_write (endsInName_of_resolve named resolves) written
    exact ⟨place, place?_eq_some.2 ⟨_, resolves, located⟩, holds⟩

theorem fileExists_of_stands {content : ByteArray} (h : p.Stands path content) :
    p.fileExists path = .ok true := by
  obtain ⟨place, here, holds⟩ := h
  obtain ⟨resolved, resolves, located⟩ := place?_eq_some.1 here
  have held := Disk.get?_of_content? holds
  simp [fileExists, status, resolves, Disk.status, located, held, bind, Except.bind, Except.map]

theorem read_of_stands {content : ByteArray} (h : p.Stands path content)
    (permitted : p.permit .read path = .ok ()) : p.read path = .ok content := by
  obtain ⟨place, here, holds⟩ := h
  obtain ⟨resolved, resolves, located⟩ := place?_eq_some.1 here
  have held := Disk.get?_of_content? holds
  simp [read, permitted, resolves, Disk.read, located, held, bind, Except.bind, pure, Except.pure]

/-- What was read stands there. -/
theorem stands_of_read {content : ByteArray} (h : p.read path = .ok content) :
    p.Stands path content ∧ p.permit .read path = .ok () := by
  rcases p.permit_cases .read path with permitted | ⟨f, denied⟩
  · cases resolves : p.resolve path with
    | error f => simp [read, permitted, resolves, bind, Except.bind] at h
    | ok resolved =>
      cases located : p.disk.locate resolved with
      | error e => simp [read, permitted, resolves, Disk.read, located, bind, Except.bind] at h
      | ok place =>
        simp only [read, permitted, resolves, mapError_ok, Disk.read, located, bind,
          Except.bind] at h
        refine ⟨⟨place, place?_eq_some.2 ⟨resolved, resolves, located⟩, ?_⟩, permitted⟩
        split at h
        · rename_i held
          obtain rfl := Except.ok.inj h
          exact Disk.content?_of_get? held
        · cases h
        · cases h
  · simp [read, denied, bind, Except.bind] at h

/-- A text that was read is what a file holds. -/
theorem held_of_readText {text : String} (h : p.readText path = .ok text) :
    ∃ content, p.contentAt (namesOf path) = some content ∧ Text.Utf8.decode content = .ok text := by
  simp only [readText, bind, Except.bind] at h
  cases read : p.read path with
  | error cause => simp [read] at h
  | ok content =>
    refine ⟨content, (stands_of_read read).1.contentAt, ?_⟩
    cases decoded : Text.Utf8.decode content with
    | error cause => simp [read, decoded] at h
    | ok other =>
      simp only [read, decoded, mapError_ok, Except.ok.injEq] at h
      rw [h]

end Project
end Scaffold
