import Scaffold.Proofs.Manifest.Entering

/-!
# A history that admits entries

When nothing is refused and only entries of other names are in the directory of the history, a save
to the history returns the path that it names first, and the next one can be saved in the same way:
`Store.Admits.saveToHistory`.
-/

namespace Scaffold
set_option autoImplicit false

/-- A path is no longer with a last name that is no longer. -/
theorem Path.utf8ByteSize_text_le (path : Path) (front : List String) {name other : String}
    (le : name.utf8ByteSize ≤ other.utf8ByteSize) :
    (path.extend (front ++ [name])).text.utf8ByteSize ≤
      (path.extend (front ++ [other])).text.utf8ByteSize := by
  have single (last : String) : Text.join "/" [last] = last := by simp [Text.join]
  have text (last : String) : (path.extend (front ++ [last])).text = path.start ++ Text.join "/"
      (path.names ++ front ++ [last]) := by
    simp [Path.text, Path.extend]
  rw [text, text, String.utf8ByteSize_append, String.utf8ByteSize_append]
  refine Nat.add_le_add_left ?_ _
  by_cases any : path.names ++ front = []
  · rwa [any, List.nil_append, List.nil_append, single, single]
  · rw [Text.join_append any (List.cons_ne_nil _ _), Text.join_append any (List.cons_ne_nil _ _),
      single, single]
    simp only [String.utf8ByteSize_append]
    exact Nat.add_le_add_left le _

namespace Project

variable {p after : Project} {path : String} {place : Place}

theorem permit_of_granted (granted : p.denials = []) (operation : Operation) (path : String) :
    p.permit operation path = .ok () :=
  permit_eq_ok.2 (by rw [granted]; exact nofun)

/-- Entries may be gone; nothing else has changed. -/
structure Thins (before after : Project) : Prop where
  same : after = { before with disk := after.disk }
  keeps : Disk.KeepsDirectories before.disk after.disk
  entries : ∀ place, after.disk.get? place = before.disk.get? place ∨ after.disk.get? place = none

theorem Thins.refl (p : Project) : Thins p p := ⟨rfl, .refl p.disk, fun _ => .inl rfl⟩

theorem Thins.trans {a b c : Project} (first : Thins a b) (second : Thins b c) : Thins a c where
  same := by rw [second.same, first.same]
  keeps := first.keeps.trans second.keeps
  entries place := by
    rcases second.entries place with kept | gone
    · exact kept ▸ first.entries place
    · exact .inr gone

theorem Thins.not_isDirectory (h : Thins p after) (free : ¬ p.disk.isDirectory place) :
    ¬ after.disk.isDirectory place := by
  rw [Disk.isDirectory_iff] at free ⊢
  rcases h.entries place with kept | gone
  · rwa [kept]
  · rw [gone]
    exact nofun

/-- Where the way is open and does not lead to a directory, a deletion succeeds. -/
theorem exists_delete (granted : p.denials = []) (here : p.place? path = some place)
    (free : ¬ p.disk.isDirectory place) :
    ∃ found after, p.delete path = .ok (found, after) ∧ Thins p after := by
  obtain ⟨resolved, resolves, located⟩ := place?_eq_some.1 here
  have deleted := delete_of_resolved (permit_of_granted granted .delete path) resolves
  cases held : p.disk.get? place with
  | none =>
    have missing : p.disk.delete resolved = .error (.refused .missing resolved.text) := by
      simp only [Disk.delete, located, held, bind, Except.bind]
      rfl
    rw [missing] at deleted
    exact ⟨false, p, deleted, .refl p⟩
  | some entry =>
    cases entry with
    | directory => exact absurd (Disk.isDirectory_iff.2 held) free
    | file content =>
      have file : p.disk.isFile place := by simp [Disk.isFile, held]
      rw [Disk.delete_of_locate located file] at deleted
      refine ⟨true, _, deleted, rfl, (Disk.touches_remove file).keeps, fun other => ?_⟩
      rw [Disk.get?_remove file]
      split
      · exact .inr rfl
      · exact .inl rfl

end Project

namespace Store

variable {store : Store} {p : Project} {m : Manifest} {now : Moment} {place : Place}
  {names : List String}

theorem exists_deleteAll {paths : List String} (granted : p.denials = [])
    (clear : ∀ path ∈ paths, ∃ place, p.place? path = some place ∧ ¬ p.disk.isDirectory place) :
    ∃ after, deleteAll paths p = (.ok (), after) ∧ Project.Thins p after := by
  induction paths generalizing p with
  | nil => exact ⟨p, rfl, .refl p⟩
  | cons path rest ih =>
    obtain ⟨⟨place, here, free⟩, others⟩ := List.forall_mem_cons.1 clear
    obtain ⟨found, between, deleted, thinned⟩ := Project.exists_delete granted here free
    have open' : ∀ other ∈ rest, ∃ place, between.place? other = some place ∧
        ¬ between.disk.isDirectory place := fun other mem => by
      obtain ⟨place, here, free⟩ := others other mem
      exact ⟨place, Project.place?_of_keeps thinned.same thinned.keeps here,
        thinned.not_isDirectory free⟩
    obtain ⟨after, all, further⟩ := ih (by rw [thinned.same]; exact granted) open'
    exact ⟨after, by rw [deleteAll, deleted]; exact all, thinned.trans further⟩

/-- A name in the history that is short enough. -/
structure HasRoom (store : Store) (p : Project) (name : String) : Prop where
  short : isTooLong name = false
  shortPath : isTooLongPath (p.root.extend (store.directory ++ [name])).text = false
  temporary :
    p.whole = true → p.disk.isTooLongTemporary (p.root.extend (store.directory ++ [name])) = false

instance (name : String) : Decidable (HasRoom store p name) :=
  decidable_of_iff (isTooLong name = false ∧
    isTooLongPath (p.root.extend (store.directory ++ [name])).text = false ∧
    (p.whole = true → p.disk.isTooLongTemporary
      (p.root.extend (store.directory ++ [name])) = false))
    ⟨fun ⟨short, shortPath, temporary⟩ => ⟨short, shortPath, temporary⟩,
      fun h => ⟨h.short, h.shortPath, h.temporary⟩⟩

theorem HasRoom.of_keeps {after : Project} {name : String} (room : HasRoom store p name)
    (same : after = { p with disk := after.disk })
    (keeps : Disk.KeepsDirectories p.disk after.disk) : HasRoom store after name := by
  have root : after.root = p.root := by rw [same]
  have whole : after.whole = p.whole := by rw [same]
  have absolute (path : Path) : after.disk.absoluteText path = p.disk.absoluteText path := by
    rw [Disk.absoluteText, Disk.absoluteText, Disk.startOf, Disk.startOf, keeps.here]
  have temporary (path : Path) :
      after.disk.isTooLongTemporary path = p.disk.isTooLongTemporary path := by
    rw [Disk.isTooLongTemporary, Disk.isTooLongTemporary, Disk.temporaryText,
      Disk.temporaryText, absolute]
  exact ⟨room.short, root ▸ room.shortPath, fun isWhole =>
    by rw [temporary, root]; exact room.temporary (whole ▸ isWhole)⟩

/-- There is room for a name that is no longer than another. -/
theorem HasRoom.of_le {name other : String} (room : HasRoom store p other)
    (le : name.utf8ByteSize ≤ other.utf8ByteSize) :
    HasRoom store p name := by
  have path := p.root.utf8ByteSize_text_le store.directory le
  have inner :
      (Disk.temporaryName name).utf8ByteSize ≤ (Disk.temporaryName other).utf8ByteSize := by
    simpa [Disk.temporaryName] using le
  have temporary :=
    (Path.ofText (p.disk.absoluteText (p.root.extend store.directory))).utf8ByteSize_text_le
      [] inner
  have last (name : String) : (p.root.extend (store.directory ++ [name])).name = name := by
    simp [Path.name, Path.extend, ← List.append_assoc]
  have above (name : String) :
      (p.root.extend (store.directory ++ [name])).parent = p.root.extend store.directory := by
    simp [Path.parent, Path.extend, ← List.append_assoc]
  obtain ⟨short, shortPath, shortTemporary⟩ := room
  rw [List.nil_append] at temporary
  refine ⟨?_, ?_, fun whole => ?_⟩
  · simp only [isTooLong, decide_eq_false_iff_not] at short ⊢
    omega
  · simp only [isTooLongPath, decide_eq_false_iff_not] at shortPath ⊢
    omega
  · have before := shortTemporary whole
    simp only [Disk.isTooLongTemporary, Disk.temporaryText, last, above, Bool.or_eq_false_iff,
      decide_eq_false_iff_not, List.nil_append] at before temporary ⊢
    omega

/-- Nothing is refused, and only entries of some names are in the directory of the history. -/
structure Admits (store : Store) (place : Place) (names : List String) (p : Project) : Prop where
  granted : p.denials = []
  here : p.place? store.historyDirectory = some place
  directory : p.disk.isDirectory place = true
  holds : ∀ name, (p.disk.get? (name :: place)).isSome = true →
    name ∈ names ∧ p.place? (store.entryPath name) = some (name :: place) ∧
    ¬ p.disk.isDirectory (name :: place)

theorem Admits.thins {after : Project} (h : Admits store place names p)
    (thinned : Project.Thins p after) : Admits store place names after := by
  refine ⟨by rw [thinned.same]; exact h.granted,
    Project.place?_of_keeps thinned.same thinned.keeps h.here,
    thinned.keeps.directories _ h.directory, fun name held => ?_⟩
  rcases thinned.entries (name :: place) with kept | gone
  · obtain ⟨mem, inside, free⟩ := h.holds name (kept ▸ held)
    exact ⟨mem, Project.place?_of_keeps thinned.same thinned.keeps inside,
      thinned.not_isDirectory free⟩
  · rw [gone] at held
    cases held

/-- A new entry can be written. -/
theorem Admits.write (h : Admits store place names p) (plain : store.IsPlain) {name : String}
    (named : isName name = true) (new : name ∉ names) (room : HasRoom store p name)
    (content : ByteArray) :
    p.fileExists (store.entryPath name) = .ok false ∧ ∃ size after,
    p.write (store.entryPath name) content = (.ok size, after) ∧
      after = { p with disk := after.disk } ∧ Disk.KeepsDirectories p.disk after.disk ∧
      Admits store place (names ++ [name]) after := by
  have absent : p.disk.get? (name :: place) = none := by
    rw [← Option.not_isSome_iff_eq_none]
    exact fun held => new (h.holds name held).1
  have vacant : ¬ p.disk.isDirectory (name :: place) := by
    simp [Disk.isDirectory_iff, absent]
  -- the path leads to the name in the directory
  obtain ⟨resolved, resolves, located⟩ := Project.place?_eq_some.1 h.here
  have resolves' : p.resolve store.historyDirectory = .ok (p.root.extend store.directory) :=
    p.resolve_of_normal plain.normal
  obtain rfl := Except.ok.inj (resolves.symm.trans resolves')
  obtain ⟨normal, split⟩ := normal_entryPath plain named
  have whole : p.root.extend (store.directory ++ [name]) = (p.root.extend store.directory).extend
    [name] := by simp [Path.extend]
  have resolves :
      p.resolve (store.entryPath name) = .ok ((p.root.extend store.directory).extend [name]) := by
    rw [p.resolve_of_normal normal, split, whole]
  have first : p.whole = true →
    p.disk.isTooLongTemporary ((p.root.extend store.directory).extend [name]) = false :=
    fun isWhole => whole ▸ room.temporary isWhole
  obtain ⟨put, inside⟩ := @Disk.write_of_isDirectory _ _ _ name content p.whole named located
    h.directory vacant room.short (whole ▸ room.shortPath) first
  have free : p.fileExists (store.entryPath name) = .ok false := by
    simp [Project.fileExists, Project.status, resolves, Disk.status, inside, absent, bind,
      Except.bind, Except.map]
  have wrote : p.write (store.entryPath name) content =
      (.ok content.size, { p with disk := p.disk.put name place (.file content) }) := by
    simp [Project.write, Project.permit_of_granted h.granted, resolves, put, bind, Except.bind]
  have keeps : Disk.KeepsDirectories p.disk (p.disk.put name place (.file content)) :=
    (Disk.touches_put name place (.file content)).keeps
  have holds : ∀ other, (p.disk.put name place (.file content)).get? other = _ :=
    Disk.get?_put named h.directory vacant
  refine ⟨free, _, _, wrote, rfl, keeps, h.granted, Project.place?_of_keeps rfl keeps h.here,
    keeps.directories _ h.directory, fun other held => ?_⟩
  by_cases same : other = name
  · subst same
    refine ⟨by simp,
      Project.place?_of_keeps rfl keeps (Project.place?_eq_some.2 ⟨_, resolves, inside⟩), ?_⟩
    simp [Disk.isDirectory_iff, holds]
  · have apart : ¬ other :: place = name :: place := fun eq => same (List.cons.inj eq).1
    rw [holds, if_neg apart] at held
    obtain ⟨mem, leads, file⟩ := h.holds other held
    refine ⟨List.mem_append_left _ mem, Project.place?_of_keeps rfl keeps leads, ?_⟩
    rwa [Disk.isDirectory_iff, holds, if_neg apart, ← Disk.isDirectory_iff]

/-- The history can be pruned. -/
theorem Admits.prune (h : Admits store place names p) (plain : store.IsPlain) :
    ∃ old after, store.pruneHistory p = (.ok old, after) ∧ Project.Thins p after := by
  obtain ⟨files, listed⟩ :=
    exists_historyFiles plain h.here (Project.permit_of_granted h.granted ..)
  obtain ⟨resolved, resolves, located⟩ := Project.place?_eq_some.1 h.here
  have root : store.directory.reverse ++ p.disk.target p.root = place := by
    rw [Disk.eq_target_of_locate located, Project.target_of_resolve resolves, plain.namesOf_eq]
  have opened : p.IsOpen := by
    obtain ⟨-, -, rfl⟩ := Project.resolve_eq_ok.1 resolves
    exact Disk.exists_locate_of_extend located
  have clear : ∀ file ∈ files.take (store.excess files.length), ∃ place,
      p.place? file = some place ∧ ¬ p.disk.isDirectory place := by
    intro file mem
    obtain ⟨stem, rfl, held⟩ :=
      (mem_historyFiles_iff plain opened listed).1 (List.mem_of_mem_take mem)
    obtain ⟨content, held⟩ := Option.isSome_iff_exists.1 held
    rw [Project.contentAt, List.reverse_append, List.reverse_singleton, List.append_assoc, root,
      List.singleton_append] at held
    obtain ⟨-, leads, file⟩ := h.holds (stem ++ ".json") (by rw [Disk.get?_of_content? held]; rfl)
    exact ⟨_, leads, file⟩
  obtain ⟨after, deleted, thinned⟩ := exists_deleteAll h.granted clear
  exact ⟨_, after, pruneHistory_eq_ok.2 ⟨files, listed, rfl, deleted⟩, thinned⟩

theorem makeDirectory_of_here (here : p.place? store.historyDirectory = some place)
    (directory : p.disk.isDirectory place) :
    p.makeDirectory store.historyDirectory = (.ok (), p) := by
  obtain ⟨resolved, resolves, located⟩ := Project.place?_eq_some.1 here
  simp only [Project.makeDirectory, resolves, Disk.makeDirectories_of_isDirectory located directory]

/-- A manifest whose first name is new enters the history. -/
theorem Admits.saveToHistory (h : Admits store place names p) (plain : store.IsPlain)
    (digest : m.HasPlainDigest) (new : historyStem m now ++ ".json" ∉ names)
    (room : HasRoom store p (historyStem m now ++ ".json"))
    (printable : (historyEntry m now).isPrintable = true) :
    ∃ path after, store.saveToHistory m now p = (.ok path, after) ∧
    after = { p with disk := after.disk } ∧
      Disk.KeepsDirectories p.disk after.disk ∧
      Admits store place (names ++ [historyStem m now ++ ".json"]) after := by
  obtain ⟨free, size, written, wrote, same, keeps, admits⟩ :=
    h.write plain (isName_historyStem digest) new room (historyEntry m now).indented.toUTF8
  obtain ⟨old, after, pruned, thinned⟩ := admits.prune plain
  have first : store.historyDirectory ++ "/" ++ historyStem m now ++ ".json" = store.entryPath
      (historyStem m now ++ ".json") := by
    simp only [entryPath, String.append_assoc]
  have found (count : Nat) : firstFree p (store.historyPaths (historyStem m now) count) =
      .ok (some (store.entryPath (historyStem m now ++ ".json"))) := by
    simp only [historyPaths, firstFree, first, free, bind, Except.bind]
    rfl
  have spelled : printed (historyEntry m now) = .ok (historyEntry m now).indented := by
    rw [printed, if_pos printable]
  refine ⟨store.entryPath (historyStem m now ++ ".json"), after, ?_,
    by rw [thinned.same, same], keeps.trans thinned.keeps, admits.thins thinned⟩
  simp only [Store.saveToHistory, makeDirectory_of_here h.here h.directory, found, spelled,
    Option.getD_some, Project.writeText, wrote, pruned]

end Store
end Scaffold
