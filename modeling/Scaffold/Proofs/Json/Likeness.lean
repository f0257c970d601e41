import Scaffold.Proofs.Json.Reading

/-!
# Values that differ in the order of members

`Json.alikeAs` compares two values but for the order in which the members of an object come, where a
shape says that it does not count; `Json.sorted` is the value with all members in the order of their
names. Values of documents are alike when they have one sorted form, `Json.alike_iff`, and that is
when they have one canonical text, `Json.canonical_eq_iff`.
-/

namespace Scaffold.Json
set_option autoImplicit false

/-- Members under distinct names are found whatever their order. -/
theorem get?_eq_some {members : Members} (nodup : (members.map (·.1)).Nodup) {key : String}
    {value : Json} : members.get? key = some value ↔ (key, value) ∈ members := by
  rw [Members.get?, Option.map_eq_some_iff]
  constructor
  · rintro ⟨⟨name, v⟩, found, rfl⟩
    have same := List.find?_some found
    obtain rfl : name = key := by simpa using same
    exact List.mem_of_find?_eq_some found
  · intro mem
    cases found : members.find? fun m => m.1 == key with
    | none => exact absurd (List.find?_eq_none.1 found _ mem) (by simp)
    | some m =>
      obtain ⟨name, v⟩ := m
      obtain rfl : name = key := by simpa using List.find?_some found
      have isIn := List.mem_of_find?_eq_some found
      have same := List.inj_on_of_nodup_map nodup mem isIn rfl
      exact ⟨_, rfl, (Prod.mk.inj same).2.symm⟩

/-- Members under distinct names all go into the object, in order. -/
theorem putAll_of_nodup {members : Members} (nodup : (members.map (·.1)).Nodup) :
    putAll members = members := by
  have fold : ∀ (members all : Members), ((all ++ members).map (·.1)).Nodup →
      members.foldl (fun all m => all.put m.1 m.2) all = all ++ members := by
    intro members
    induction members with
    | nil => simp
    | cons m rest ih =>
      intro all nodup
      have fresh : all.any (·.1 == m.1) = false := by
        rw [List.map_append, List.nodup_append] at nodup
        rw [List.any_eq_false]
        intro other mem same
        exact nodup.2.2 other.1 (List.mem_map_of_mem mem) m.1 (by simp) (by simpa using same)
      have added : all.put m.1 m.2 = all ++ [m] := by simp [Members.put, fresh]
      rw [List.foldl_cons, added, ih _ (by simpa using nodup)]
      simp
  exact fold members [] nodup

mutual

/-- Whether a value can stand in a document: the names in each object are distinct, and
floating-point numbers have the form that rounding gives. -/
def isSound : Json → Bool
  | float value => value.isRounded
  | array items => areSound items
  | object members => decide (members.map (·.1)).Nodup && membersSound members
  | _ => true

def areSound : List Json → Bool
  | [] => true
  | item :: items => isSound item && areSound items

def membersSound : List (String × Json) → Bool
  | [] => true
  | (_, value) :: members => isSound value && membersSound members

end

mutual

/-- The value with the members of every object in the order of their names. -/
def sorted : Json → Json
  | array items => .array (sortedItems items)
  | object members => .object (sortOn (·.1) (sortedMembers members))
  | value => value

def sortedItems : List Json → List Json
  | [] => []
  | item :: items => sorted item :: sortedItems items

def sortedMembers : List (String × Json) → List (String × Json)
  | [] => []
  | (name, value) :: members => (name, sorted value) :: sortedMembers members

end

/-- Where in a value the order of members counts. -/
inductive Shape where
  /-- Nowhere. -/
  | free
  /-- Everywhere. -/
  | fixed
  /-- Not among the members themselves; inside of those that are named as given, and inside of
  others nowhere. -/
  | record (members : List (String × Shape))
  /-- Among the members themselves if they are `ordered`, and inside of each as given. -/
  | all (ordered : Bool) (each : Shape)

namespace Shape

/-- Whether the order of the members themselves counts. -/
def counts : Shape → Bool
  | free | record _ => false
  | fixed => true
  | all ordered _ => ordered

/-- The shape of the member under a name. -/
def inside : Shape → String → Shape
  | free, _ => free
  | fixed, _ => fixed
  | record members, name => (members.lookup name).getD free
  | all _ each, _ => each

end Shape

mutual

/-- Whether two values are equal but for the order of members, where that does not count. The items
of an array have the shape of the array. -/
def alikeAs (shape : Shape) : Json → Json → Bool
  | null, null => true
  | bool a, bool b => a == b
  | int a, int b => a == b
  | float a, float b => a == b
  | string a, string b => a == b
  | array items, array others => alikeItems shape items others
  | object members, object others =>
    members.length == others.length && (!shape.counts || members.map (·.1) == others.map (·.1)) &&
      alikeMembers shape members others
  | _, _ => false

def alikeItems (shape : Shape) : List Json → List Json → Bool
  | [], [] => true
  | item :: items, other :: others => alikeAs shape item other && alikeItems shape items others
  | _, _ => false

/-- Whether each member has its like under the same name. -/
def alikeMembers (shape : Shape) : List (String × Json) → Members → Bool
  | [], _ => true
  | (name, value) :: members, others =>
    (match others.get? name with
      | some other => alikeAs (shape.inside name) value other
      | none => false) && alikeMembers shape members others

end

/-- Whether two values are equal but for the order of members, wherever they stand. -/
def alike (a b : Json) : Bool := alikeAs .free a b

theorem areSound_iff {items : List Json} :
    areSound items = true ↔ ∀ item ∈ items, item.isSound = true := by
  induction items with
  | nil => simp [areSound]
  | cons item items ih => simp [areSound, ih]

theorem membersSound_iff {members : Members} :
    membersSound members = true ↔ ∀ m ∈ members, m.2.isSound = true := by
  induction members with
  | nil => simp [membersSound]
  | cons m members ih => simp [membersSound, ih]

theorem isSound_object {members : Members} :
    (object members).isSound = true ↔ (members.map (·.1)).Nodup ∧ ∀ m ∈ members,
    m.2.isSound = true := by
  rw [isSound, Bool.and_eq_true, decide_eq_true_eq, membersSound_iff]

theorem sortedMembers_eq (members : Members) :
    sortedMembers members = members.map fun m => (m.1, m.2.sorted) := by
  induction members with
  | nil => rfl
  | cons m members ih => rw [sortedMembers, ih, List.map_cons]

theorem sorted_object (members : Members) :
    (object members).sorted = .object ((sortOn (·.1) members).map fun m => (m.1, m.2.sorted)) := by
  rw [sorted, sortedMembers_eq, sortOn_map (·.1) (by simp)]

theorem alikeMembers_iff {shape : Shape} {members others : Members} :
    alikeMembers shape members others = true ↔ ∀ m ∈ members, ∃ other,
    others.get? m.1 = some other ∧ alikeAs (shape.inside m.1) m.2 other = true := by
  induction members with
  | nil => simp [alikeMembers]
  | cons m members ih =>
    rw [alikeMembers, Bool.and_eq_true, ih, List.forall_mem_cons]
    refine and_congr_left fun _ => ?_
    cases others.get? m.1 <;> simp

mutual

/-- A sound value is read back with its members in the order of their names. -/
theorem reread_eq_sorted : ∀ (v : Json), v.isSound → v.reread = v.sorted
  | .null, _ => rfl
  | .bool _, _ => rfl
  | .int _, _ => rfl
  | .float _, sound => rereadFloat_eq sound
  | .string _, _ => rfl
  | .array items, sound => congrArg array (rereadItems_eq_sorted items sound)
  | .object members, sound => by
    have nodup := (isSound_object.1 sound).1
    rw [isSound, Bool.and_eq_true] at sound
    rw [reread, rereadMembers_eq_sorted members sound.2, putAll_of_nodup, sorted]
    rw [(sortOn_perm _ _).map _ |>.nodup_iff, sortedMembers_eq, List.map_map]
    exact nodup

theorem rereadItems_eq_sorted :
    ∀ (items : List Json), areSound items → rereadItems items = sortedItems items
  | [], _ => rfl
  | item :: items, sound => by
    rw [areSound, Bool.and_eq_true] at sound
    rw [rereadItems, sortedItems, reread_eq_sorted item sound.1,
      rereadItems_eq_sorted items sound.2]

theorem rereadMembers_eq_sorted : ∀ (members : List (String × Json)), membersSound members →
    rereadMembers members = sortedMembers members
  | [], _ => rfl
  | (name, v) :: members, sound => by
    rw [membersSound, Bool.and_eq_true] at sound
    rw [rereadMembers, sortedMembers, reread_eq_sorted v sound.1,
      rereadMembers_eq_sorted members sound.2]

end

mutual

/-- The canonical text does not show in what order the members came. -/
theorem canonicalChars_sorted : ∀ (v : Json), v.sorted.canonicalChars = v.canonicalChars
  | .null | .bool _ | .int _ | .float _ | .string _ => rfl
  | .array items => by rw [sorted, canonicalChars, canonicalChars, canonicalItems_sorted items]
  | .object members => by
    rw [sorted, canonicalChars, canonicalChars, ← canonicalMembers_sorted members,
      canonicalMembers_eq, canonicalMembers_eq, sortOn_map (·.1) (by simp),
      sortOn_map (·.1) (by simp), sortOn_sortOn]

theorem canonicalItems_sorted :
    ∀ (items : List Json), canonicalItems (sortedItems items) = canonicalItems items
  | [] => rfl
  | item :: items => by
    rw [sortedItems, canonicalItems, canonicalItems, canonicalChars_sorted item,
      canonicalItems_sorted items]

theorem canonicalMembers_sorted : ∀ (members : List (String × Json)),
    canonicalMembers (sortedMembers members) = canonicalMembers members
  | [] => rfl
  | (name, v) :: members => by
    rw [sortedMembers, canonicalMembers, canonicalMembers, canonicalChars_sorted v,
      canonicalMembers_sorted members]

end

/-- What is found in a sound object is sound. -/
theorem isSound_of_get? {members : Members} (sound : ∀ m ∈ members, m.2.isSound)
    {name : String} {v : Json} (found : members.get? name = some v) : v.isSound := by
  rw [Members.get?, Option.map_eq_some_iff] at found
  obtain ⟨m, found, rfl⟩ := found
  exact sound m (List.mem_of_find?_eq_some found)

/-- Members that are alike are the same, in some order, once they are sorted themselves. -/
theorem perm_sorted {members others : Members} (nodup : (members.map (·.1)).Nodup)
    (length : members.length = others.length)
    (same : ∀ m ∈ members, ∃ other, others.get? m.1 = some other ∧ m.2.sorted = other.sorted)
    (nodup' : (others.map (·.1)).Nodup) :
    (members.map fun m => (m.1, m.2.sorted)).Perm (others.map fun m => (m.1, m.2.sorted)) := by
  have distinct : (members.map fun m => (m.1, m.2.sorted)).Nodup := by
    refine List.Nodup.of_map (·.1) ?_
    rw [List.map_map]
    exact nodup
  refine (List.subperm_of_subset distinct ?_).perm_of_length_le (by simp [length])
  intro entry isIn
  obtain ⟨m, mem, rfl⟩ := List.mem_map.1 isIn
  obtain ⟨other, found, eq⟩ := same m mem
  exact List.mem_map.2 ⟨(m.1, other), (get?_eq_some nodup').1 found, by rw [eq]⟩

mutual

/-- Values that are alike have one sorted form. -/
theorem sorted_eq_of_alikeAs :
    ∀ (shape : Shape) (a b : Json), a.isSound → b.isSound → alikeAs shape a b →
    a.sorted = b.sorted
  | _, .null, b, _, _, like => by cases b <;> simp [alikeAs] at like; rfl
  | _, .bool _, b, _, _, like => by cases b <;> simp [alikeAs] at like; rw [like]
  | _, .int _, b, _, _, like => by cases b <;> simp [alikeAs] at like; rw [like]
  | _, .float _, b, _, _, like => by cases b <;> simp [alikeAs] at like; rw [like]
  | _, .string _, b, _, _, like => by cases b <;> simp [alikeAs] at like; rw [like]
  | shape, .array items, b, sound, sound', like => by
    cases b with
    | array others =>
      exact congrArg array (sortedItems_eq_of_alike shape items others sound sound' like)
    | _ => simp [alikeAs] at like
  | shape, .object members, b, sound, sound', like => by
    cases b with
    | object others =>
      rw [alikeAs, Bool.and_eq_true, Bool.and_eq_true, beq_iff_eq] at like
      have nodup := (isSound_object.1 sound).1
      have nodup' := (isSound_object.1 sound').1
      have whole := sound'
      rw [isSound, Bool.and_eq_true] at sound sound'
      have same :=
        sortedMembers_eq_of_alike shape members others sound.2 (isSound_object.1 whole).2 like.2
      have perm := perm_sorted nodup like.1.1 same nodup'
      rw [sorted, sorted, sortedMembers_eq, sortedMembers_eq]
      refine congrArg object (sortOn_eq_of_perm ?_ perm)
      rw [List.map_map]
      exact nodup
    | _ => simp [alikeAs] at like

theorem sortedItems_eq_of_alike :
    ∀ (shape : Shape) (items others : List Json), areSound items → areSound others →
    alikeItems shape items others → sortedItems items = sortedItems others
  | _, [], others, _, _, like => by cases others <;> simp [alikeItems] at like; rfl
  | shape, item :: items, others, sound, sound', like => by
    cases others with
    | nil => simp [alikeItems] at like
    | cons other others =>
      rw [alikeItems, Bool.and_eq_true] at like
      rw [areSound, Bool.and_eq_true] at sound sound'
      rw [sortedItems, sortedItems, sorted_eq_of_alikeAs shape item other sound.1 sound'.1 like.1,
        sortedItems_eq_of_alike shape items others sound.2 sound'.2 like.2]

theorem sortedMembers_eq_of_alike : ∀ (shape : Shape) (members : List (String × Json))
    (others : Members), membersSound members → (∀ m ∈ others, m.2.isSound) →
    alikeMembers shape members others →
    ∀ m ∈ members, ∃ other, others.get? m.1 = some other ∧ m.2.sorted = other.sorted
  | _, [], _, _, _, _ => by simp
  | shape, (name, v) :: members, others, sound, sound', like => by
    rw [membersSound, Bool.and_eq_true] at sound
    obtain ⟨⟨other, found, here⟩, -⟩ := List.forall_mem_cons.1 (alikeMembers_iff.1 like)
    rw [alikeMembers, Bool.and_eq_true] at like
    refine List.forall_mem_cons.2 ⟨⟨other, found, ?_⟩,
      sortedMembers_eq_of_alike shape members others sound.2 sound' like.2⟩
    exact sorted_eq_of_alikeAs (shape.inside name) v other sound.1
      (isSound_of_get? sound' found) here

end

mutual

/-- Values with one sorted form are alike. -/
theorem alike_of_sorted_eq :
    ∀ (a b : Json), a.isSound → b.isSound → a.sorted = b.sorted → alikeAs .free a b
  | .null, b, _, _, eq => by cases b <;> simp [sorted] at eq; rfl
  | .bool _, b, _, _, eq => by cases b <;> simp [sorted] at eq; simp [alikeAs, eq]
  | .int _, b, _, _, eq => by cases b <;> simp [sorted] at eq; simp [alikeAs, eq]
  | .float _, b, _, _, eq => by cases b <;> simp [sorted] at eq; simp [alikeAs, eq]
  | .string _, b, _, _, eq => by cases b <;> simp [sorted] at eq; simp [alikeAs, eq]
  | .array items, b, sound, sound', eq => by
    cases b with
    | array others => exact alikeItems_of_sorted_eq items others sound sound' (array.inj eq)
    | _ => simp [sorted] at eq
  | .object members, b, sound, sound', eq => by
    cases b with
    | object others =>
      obtain ⟨nodup, -⟩ := isSound_object.1 sound
      obtain ⟨nodup', whole⟩ := isSound_object.1 sound'
      rw [isSound, Bool.and_eq_true] at sound
      rw [sorted, sorted, object.injEq, sortedMembers_eq, sortedMembers_eq] at eq
      have perm :
        (members.map fun m => (m.1, m.2.sorted)).Perm (others.map fun m => (m.1, m.2.sorted)) :=
        (sortOn_perm Prod.fst _).symm.trans (by rw [eq]; exact sortOn_perm Prod.fst _)
      have length : members.length = others.length := by simpa using perm.length_eq
      have same : ∀ m ∈ members, ∃ other, Members.get? others m.1 = some other ∧
          m.2.sorted = other.sorted := by
        intro m mem
        obtain ⟨other, isIn, eq⟩ := List.mem_map.1 (perm.mem_iff.1 (List.mem_map.2 ⟨m, mem, rfl⟩))
        obtain ⟨name, same⟩ := Prod.mk.inj eq
        exact ⟨other.2, (get?_eq_some nodup').2 (name ▸ isIn), same.symm⟩
      rw [alikeAs, Shape.counts, Bool.not_false, Bool.true_or, Bool.and_true,
        Bool.and_eq_true, beq_iff_eq]
      exact ⟨length, alikeMembers_of_sorted_eq members others sound.2 whole same⟩
    | _ => simp [sorted] at eq

theorem alikeItems_of_sorted_eq : ∀ (items others : List Json), areSound items → areSound others →
    sortedItems items = sortedItems others → alikeItems .free items others
  | [], others, _, _, eq => by cases others <;> simp [sortedItems] at eq; rfl
  | item :: items, others, sound, sound', eq => by
    cases others with
    | nil => simp [sortedItems] at eq
    | cons other others =>
      rw [areSound, Bool.and_eq_true] at sound sound'
      rw [sortedItems, sortedItems, List.cons.injEq] at eq
      rw [alikeItems, Bool.and_eq_true]
      exact ⟨alike_of_sorted_eq item other sound.1 sound'.1 eq.1,
        alikeItems_of_sorted_eq items others sound.2 sound'.2 eq.2⟩

theorem alikeMembers_of_sorted_eq : ∀ (members : List (String × Json)) (others : Members),
    membersSound members → (∀ m ∈ others, m.2.isSound) →
    (∀ m ∈ members, ∃ other, others.get? m.1 = some other ∧ m.2.sorted = other.sorted) →
    alikeMembers .free members others
  | [], _, _, _, _ => rfl
  | (name, v) :: members, others, sound, sound', same => by
    rw [membersSound, Bool.and_eq_true] at sound
    obtain ⟨⟨other, found, eq⟩, rest⟩ := List.forall_mem_cons.1 same
    have soundOther := isSound_of_get? sound' found
    rw [alikeMembers, found, Bool.and_eq_true]
    exact ⟨alike_of_sorted_eq v other sound.1 soundOther eq,
      alikeMembers_of_sorted_eq members others sound.2 sound' rest⟩

end

/-- Sound values are alike when they have one sorted form. -/
theorem alike_iff {a b : Json} (sound : a.isSound) (sound' : b.isSound) :
    a.alike b = true ↔ a.sorted = b.sorted :=
  ⟨sorted_eq_of_alikeAs .free a b sound sound', alike_of_sorted_eq a b sound sound'⟩

/-- The canonical texts of sound values are the same exactly when the values are equal but for the
order of members: the text of either is read back. -/
theorem canonical_eq_iff {a b : Json} (sound : a.isSound) (sound' : b.isSound)
    (printable : a.isPrintable) (printable' : b.isPrintable) :
    a.canonical = b.canonical ↔ a.alike b = true := by
  rw [alike_iff sound sound']
  constructor
  · intro same
    have back : Except.ok a.reread = Except.ok b.reread :=
      (read_canonical printable).symm.trans (same ▸ read_canonical printable')
    rw [← reread_eq_sorted a sound, ← reread_eq_sorted b sound']
    exact Except.ok.inj back
  · intro same
    rw [canonical, canonical, ← canonicalChars_sorted a, ← canonicalChars_sorted b, same]

mutual

theorem sorted_sorted : ∀ (v : Json), v.sorted.sorted = v.sorted
  | .null | .bool _ | .int _ | .float _ | .string _ => rfl
  | .array items => by rw [sorted, sorted, sortedItems_sorted items]
  | .object members => by
    have named : ∀ m : String × Json, (m.1, m.2.sorted).1 = m.1 := fun _ => rfl
    have inner : sortedMembers (sortOn (·.1) (sortedMembers members)) = sortOn (·.1)
        (sortedMembers members) := by
      rw [sortedMembers_eq (sortOn _ _), ← sortOn_map Prod.fst named, ← sortedMembers_eq,
        sortedMembers_sorted members]
    rw [sorted, sorted, inner, sortOn_sortOn]

theorem sortedItems_sorted :
    ∀ (items : List Json), sortedItems (sortedItems items) = sortedItems items
  | [] => rfl
  | item :: items => by rw [sortedItems, sortedItems, sorted_sorted item, sortedItems_sorted items]

theorem sortedMembers_sorted : ∀ (members : List (String × Json)),
    sortedMembers (sortedMembers members) = sortedMembers members
  | [] => rfl
  | (name, v) :: members => by
    rw [sortedMembers, sortedMembers, sorted_sorted v, sortedMembers_sorted members]

end

mutual

theorem isSound_sorted : ∀ (v : Json), v.isSound → v.sorted.isSound
  | .null, _ | .bool _, _ | .string _, _ | .int _, _ => rfl
  | .float _, sound => sound
  | .array items, sound => areSound_sorted items sound
  | .object members, sound => by
    obtain ⟨nodup, -⟩ := isSound_object.1 sound
    rw [isSound, Bool.and_eq_true] at sound
    rw [sorted_object, isSound_object]
    have names : ((sortOn (·.1) members).map fun m => (m.1, m.2.sorted)).map (·.1) =
        (sortOn (·.1) members).map (·.1) := by
      rw [List.map_map]
      rfl
    refine ⟨names ▸ ((sortOn_perm _ members).map _).nodup_iff.2 nodup, ?_⟩
    intro entry isIn
    obtain ⟨m, mem, rfl⟩ := List.mem_map.1 isIn
    exact membersSound_sorted members sound.2 m (mem_sortOn.1 mem)

theorem areSound_sorted : ∀ (items : List Json), areSound items → areSound (sortedItems items)
  | [], _ => rfl
  | item :: items, sound => by
    rw [areSound, Bool.and_eq_true] at sound
    rw [sortedItems, areSound, Bool.and_eq_true]
    exact ⟨isSound_sorted item sound.1, areSound_sorted items sound.2⟩

theorem membersSound_sorted :
    ∀ (members : List (String × Json)), membersSound members → ∀ m ∈ members, m.2.sorted.isSound
  | [], _ => by simp
  | (name, v) :: members, sound => by
    rw [membersSound, Bool.and_eq_true] at sound
    exact List.forall_mem_cons.2 ⟨isSound_sorted v sound.1, membersSound_sorted members sound.2⟩

end

/-- A value is like its sorted form. -/
theorem alike_sorted {v : Json} (sound : v.isSound) : v.alike v.sorted = true :=
  (alike_iff sound (isSound_sorted v sound)).2 (sorted_sorted v).symm

end Scaffold.Json
