/-!
# Disks

Files and directories by place. Every entry stands in a directory. The statements say what a place
holds after an entry is put in or removed: what is elsewhere stays as it was.
-/

namespace Scaffold
set_option autoImplicit false

/-- Where an entry stands: its name and those of the directories above it, the nearest first. The
root of the disk has no name. -/
abbrev Place := List String

/-- What stands at a place. -/
inductive Entry where
  | file (content : ByteArray)
  | directory

instance : DecidableEq Entry
  | .directory, .directory => isTrue rfl
  | .file _, .directory => isFalse nofun
  | .directory, .file _ => isFalse nofun
  | .file a, .file b =>
    decidable_of_iff (a.data = b.data) (by rw [Entry.file.injEq, ByteArray.ext_iff])

/-- Whether a text can be the name of an entry. -/
def isName (text : String) : Bool :=
  !text.isEmpty && text != "." && text != ".." && text.toList.all fun c => c ≠ '/' && c ≠ '\x00'

/-- The entries of a disk other than its root, the oldest first, and the directory in which relative
paths start. -/
structure Disk where
  entries : List (Place × Entry)
  here : Place
  nodup_places : (entries.map (·.1)).Nodup
  names : ∀ place ∈ entries.map (·.1), ∀ name ∈ place, isName name
  stands_in : ∀ name place, name :: place ∈ entries.map (·.1) →
    place = [] ∨ (place, .directory) ∈ entries

namespace Disk

/-- A disk with nothing on it. -/
def blank : Disk := ⟨[], [], by simp, by simp, by simp⟩

instance : Inhabited Disk := ⟨blank⟩

/-- What stands at a place; the root is a directory. -/
def get? (disk : Disk) (place : Place) : Option Entry :=
  if place = [] then some .directory else disk.entries.lookup place

def isDirectory (disk : Disk) (place : Place) : Bool := disk.get? place = some .directory

def isFile (disk : Disk) (place : Place) : Bool :=
  match disk.get? place with
  | some (.file _) => true
  | _ => false

/-- The content of a file. -/
def content? (disk : Disk) (place : Place) : Option ByteArray :=
  match disk.get? place with
  | some (.file content) => some content
  | _ => none

/-- The names of the entries of a directory, the newest first. -/
def children (disk : Disk) (place : Place) : List String :=
  disk.entries.reverse.filterMap fun entry =>
    match entry.1 with
    | name :: above => if above = place then some name else none
    | [] => none

theorem lookup_eq_some {α β : Type} [BEq α] [LawfulBEq α] {list : List (α × β)}
    (nodup : (list.map (·.1)).Nodup) {key : α} {value : β} :
    list.lookup key = some value ↔ (key, value) ∈ list := by
  induction list with
  | nil => simp
  | cons entry rest ih =>
    obtain ⟨k, v⟩ := entry
    simp only [List.map_cons, List.nodup_cons] at nodup
    by_cases h : key = k
    · subst h
      have absent : (key, value) ∉ rest := fun m => nodup.1 (List.mem_map_of_mem m)
      simp [absent, eq_comm]
    · have h' : (key == k) = false := by simpa using h
      simp [List.lookup_cons, h', ih nodup.2, h]

/-- An entry is at its place on the list of entries. -/
theorem get?_eq_some {disk : Disk} {place : Place} {entry : Entry} (below : place ≠ []) :
    disk.get? place = some entry ↔ (place, entry) ∈ disk.entries := by
  simp [get?, below, lookup_eq_some disk.nodup_places]

/-- A place is on the list when it holds something. -/
theorem mem_places {disk : Disk} {place : Place} (below : place ≠ []) :
    place ∈ disk.entries.map (·.1) ↔ (disk.get? place).isSome := by
  constructor
  · intro h
    obtain ⟨⟨p, entry⟩, m, rfl⟩ := List.mem_map.1 h
    rw [(get?_eq_some below).2 m]
    rfl
  · intro h
    obtain ⟨entry, e⟩ := Option.isSome_iff_exists.1 h
    exact List.mem_map_of_mem (f := (·.1)) ((get?_eq_some below).1 e)

/-- Every entry stands in a directory. -/
theorem isDirectory_above {disk : Disk} {name : String} {place : Place}
    (h : (disk.get? (name :: place)).isSome) : disk.isDirectory place := by
  rcases disk.stands_in name place ((mem_places (by simp)).2 h) with rfl | h
  · simp [isDirectory, get?]
  · by_cases root : place = []
    · subst root; simp [isDirectory, get?]
    · simp [isDirectory, (get?_eq_some root).2 h]

/-- What stands on the disk has names all the way. -/
theorem names_of_get? {disk : Disk} {place : Place} (h : (disk.get? place).isSome) :
    ∀ name ∈ place, isName name := by
  intro name mem
  have below : place ≠ [] := List.ne_nil_of_mem mem
  exact disk.names place ((mem_places below).2 h) name mem

theorem names_of_isDirectory {disk : Disk} {place : Place} (h : disk.isDirectory place) :
    ∀ name ∈ place, isName name := by
  rw [isDirectory, decide_eq_true_eq] at h
  have held : (disk.get? place).isSome := by rw [h]; rfl
  exact names_of_get? held

/-- The entries without those at a place, followed by a new one. -/
def placed (entries : List (Place × Entry)) (place : Place) (entry : Entry) :
    List (Place × Entry) :=
  entries.filter (·.1 != place) ++ [(place, entry)]

theorem mem_placed {entries : List (Place × Entry)} {place : Place} {entry : Entry}
    {x : Place × Entry} :
    x ∈ placed entries place entry ↔ (x ∈ entries ∧ x.1 ≠ place) ∨ x = (place, entry) := by
  simp [placed]

/-- Puts an entry into a directory, in place of a file of that name. Where there is no such
directory, the name is that of a directory, or the text no name, nothing happens. -/
def put (disk : Disk) (name : String) (above : Place) (entry : Entry) : Disk :=
  if h : isName name ∧ disk.isDirectory above ∧ ¬ disk.isDirectory (name :: above) then
    { disk with
      entries := placed disk.entries (name :: above) entry
      nodup_places := by
        simp only [placed, List.map_append, List.map_cons, List.map_nil]
        rw [List.nodup_append]
        refine ⟨disk.nodup_places.sublist ((List.filter_sublist).map _), by simp, ?_⟩
        intro a ha b hb e
        simp only [List.mem_singleton] at hb
        subst hb e
        simp at ha
      names := by
        intro place m n mem
        obtain ⟨x, mx, rfl⟩ := List.mem_map.1 m
        rcases mem_placed.1 mx with ⟨mx, _⟩ | rfl
        · exact disk.names x.1 (List.mem_map_of_mem mx) n mem
        · rcases List.mem_cons.1 mem with rfl | mem
          · exact h.1
          · exact names_of_isDirectory h.2.1 n mem
      stands_in := by
        intro n p m
        have old : ∀ q, q = [] ∨ (q, .directory) ∈ disk.entries →
            q = [] ∨ (q, .directory) ∈ placed disk.entries (name :: above) entry := by
          rintro q (rfl | hq)
          · exact .inl rfl
          · refine .inr (mem_placed.2 (.inl ⟨hq, ?_⟩))
            rintro rfl
            exact h.2.2 (by simp [isDirectory, (get?_eq_some (by simp)).2 hq])
        obtain ⟨x, mx, ex⟩ := List.mem_map.1 m
        rcases mem_placed.1 mx with ⟨mx, _⟩ | rfl
        · exact old p (disk.stands_in n p (ex ▸ List.mem_map_of_mem mx))
        · obtain ⟨rfl, rfl⟩ := List.cons.inj ex
          refine old above ?_
          by_cases root : above = []
          · exact .inl root
          · exact .inr ((get?_eq_some root).1 (by simpa [isDirectory] using h.2.1)) }
  else disk

theorem entries_put {disk : Disk} {name : String} {above : Place} {entry : Entry}
    (named : isName name) (directory : disk.isDirectory above)
    (free : ¬ disk.isDirectory (name :: above)) :
    (disk.put name above entry).entries = placed disk.entries (name :: above) entry := by
  unfold put
  rw [dif_pos ⟨named, directory, free⟩]

/-- After an entry is put in, its place holds it, and every other place what it held. -/
theorem get?_put {disk : Disk} {name : String} {above : Place} {entry : Entry} (named : isName name)
    (directory : disk.isDirectory above) (free : ¬ disk.isDirectory (name :: above))
    (place : Place) : (disk.put name above entry).get? place = if place = name :: above then
      some entry else disk.get? place := by
  by_cases root : place = []
  · subst root; simp [get?]
  · apply Option.ext
    intro e
    rw [get?_eq_some root, entries_put named directory free, mem_placed]
    by_cases h : place = name :: above
    · subst h; simp [eq_comm]
    · simp [h, get?_eq_some root]

/-- Takes a file away. -/
def remove (disk : Disk) (place : Place) : Disk :=
  if h : disk.isFile place then
    { disk with
      entries := disk.entries.filter (·.1 != place)
      nodup_places := disk.nodup_places.sublist ((List.filter_sublist).map _)
      names := fun place mem => disk.names place (((List.filter_sublist).map _).mem mem)
      stands_in := by
        intro n p m
        obtain ⟨x, mx, ex⟩ := List.mem_map.1 m
        rw [List.mem_filter] at mx
        rcases disk.stands_in n p (ex ▸ List.mem_map_of_mem mx.1) with rfl | hp
        · exact .inl rfl
        · refine .inr (List.mem_filter.2 ⟨hp, ?_⟩)
          simp only [bne_iff_ne, ne_eq]
          rintro rfl
          by_cases root : p = []
          · subst root; simp [isFile, get?] at h
          · simp [isFile, (get?_eq_some root).2 hp] at h }
  else disk

theorem entries_remove {disk : Disk} {gone : Place} (h : disk.isFile gone) :
    (disk.remove gone).entries = disk.entries.filter (·.1 != gone) := by
  unfold remove
  rw [dif_pos h]

/-- After a file is taken away its place is empty, and every other place holds what it held. -/
theorem get?_remove {disk : Disk} {gone : Place} (h : disk.isFile gone) (place : Place) :
    (disk.remove gone).get? place = if place = gone then none else disk.get? place := by
  by_cases root : place = []
  · have below : gone ≠ [] := by rintro rfl; simp [isFile, get?] at h
    subst root
    simp [get?, below.symm]
  · apply Option.ext
    intro e
    rw [get?_eq_some root, entries_remove h]
    by_cases same : place = gone
    · simp [same]
    · simp [same, get?_eq_some root]

/-- Takes everything away that stands at a place or below it. -/
def prune (disk : Disk) (place : Place) : Disk :=
  { disk with
    entries := disk.entries.filter fun entry => !place.isSuffixOf entry.1
    nodup_places := disk.nodup_places.sublist ((List.filter_sublist).map _)
    names := fun place mem => disk.names place (((List.filter_sublist).map _).mem mem)
    stands_in := by
      intro n p m
      obtain ⟨x, mx, ex⟩ := List.mem_map.1 m
      rw [List.mem_filter] at mx
      rcases disk.stands_in n p (ex ▸ List.mem_map_of_mem mx.1) with rfl | hp
      · exact .inl rfl
      · refine .inr (List.mem_filter.2 ⟨hp, ?_⟩)
        have outside := mx.2
        rw [ex] at outside
        simp only [Bool.not_eq_true', Bool.eq_false_iff, ne_eq,
          List.isSuffixOf_iff_suffix] at outside ⊢
        exact fun within => outside (within.trans (List.suffix_cons n p)) }

end Disk
end Scaffold
