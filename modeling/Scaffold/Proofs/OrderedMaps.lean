import Mathlib.Data.List.Nodup
import Scaffold.Disk
import Scaffold.OrderedMap

/-!
# Entries of maps

Which entries a map has after one was put in, and after a whole list was.
-/

namespace Scaffold.OrderedMap
set_option autoImplicit false

variable {α : Type}

theorem setIn_of_not_mem {key : String} {entries : List (String × α)}
    (fresh : key ∉ entries.map (·.1)) (value : α) :
    setIn key value entries = entries ++ [(key, value)] := by
  induction entries with
  | nil => rfl
  | cons entry rest ih =>
    rw [List.map_cons, List.mem_cons, not_or] at fresh
    rw [setIn, if_neg (Ne.symm fresh.1), ih fresh.2, List.cons_append]

/-- Entries under distinct names all go into the map, in order. -/
theorem entries_ofList {entries : List (String × α)} (nodup : (entries.map (·.1)).Nodup) :
    (ofList entries).entries = entries := by
  have fold : ∀ (entries : List (String × α)) (map : OrderedMap α),
      ((map.entries ++ entries).map (·.1)).Nodup →
        (entries.foldl (fun map entry => map.insert entry.1 entry.2) map).entries =
          map.entries ++ entries := by
    intro entries
    induction entries with
    | nil => simp
    | cons entry rest ih =>
      intro map nodup
      have fresh : entry.1 ∉ map.entries.map (·.1) := by
        rw [List.map_append, List.nodup_append] at nodup
        exact fun mem => nodup.2.2 _ mem entry.1 (by simp) rfl
      have added : (map.insert entry.1 entry.2).entries = map.entries ++ [entry] :=
        setIn_of_not_mem fresh entry.2
      rw [List.foldl_cons, ih _ (by rw [added]; simpa using nodup), added]
      simp
  exact fold entries empty nodup

/-- The names of a map are those that were put in. -/
theorem mem_keys_ofList {entries : List (String × α)} {key : String} :
    key ∈ (ofList entries).keys ↔ key ∈ entries.map (·.1) := by
  have fold : ∀ (entries : List (String × α)) (map : OrderedMap α),
      key ∈ (entries.foldl (fun map entry => map.insert entry.1 entry.2) map).keys ↔
        key ∈ map.keys ∨ key ∈ entries.map (·.1) := by
    intro entries
    induction entries with
    | nil => simp
    | cons entry rest ih =>
      intro map
      have added : key ∈ (map.insert entry.1 entry.2).keys ↔ key ∈ map.keys ∨ key = entry.1 := by
        rw [keys_insert]
        split
        · rename_i present
          exact ⟨.inl, fun h => h.elim id fun same => same ▸ present⟩
        · rw [List.mem_append, List.mem_singleton]
      rw [List.foldl_cons, ih, added, List.map_cons, List.mem_cons, or_assoc]
  rw [ofList, fold entries empty]
  simp [empty, keys]

/-- Only from no entries comes a map without any. -/
theorem isEmpty_ofList {entries : List (String × α)} :
    (ofList entries).isEmpty = entries.isEmpty := by
  have keys : (ofList entries).keys = [] ↔ entries = [] := by
    rw [List.eq_nil_iff_forall_not_mem]
    simp only [mem_keys_ofList]
    rw [← List.eq_nil_iff_forall_not_mem, List.map_eq_nil_iff]
  rw [Bool.eq_iff_iff, List.isEmpty_iff, ← keys, OrderedMap.isEmpty, List.isEmpty_iff,
    OrderedMap.keys, List.map_eq_nil_iff]

/-- What a map holds, name by name. -/
theorem flatMap_values {β : Type} (map : OrderedMap α) (f : α → List β) :
    map.values.flatMap f = map.keys.flatMap fun key => (map.get? key).elim [] f := by
  rw [values, keys, List.flatMap_map, List.flatMap_map]
  refine List.flatMap_congr fun entry mem => ?_
  rw [get?, (Disk.lookup_eq_some map.nodup_keys).2 mem, Option.elim_some]

theorem mem_setIn {key : String} {value : α} {entries : List (String × α)}
    (nodup : (entries.map (·.1)).Nodup) {x : String × α} :
    x ∈ setIn key value entries ↔ x = (key, value) ∨ x ∈ entries ∧ x.1 ≠ key := by
  induction entries with
  | nil => simp [setIn]
  | cons entry rest ih =>
    obtain ⟨fresh, nodup⟩ := List.nodup_cons.1 nodup
    have absent : ∀ y ∈ rest, y.1 ≠ entry.1 := by
      intro y mem same
      exact fresh (List.mem_map.2 ⟨y, mem, same⟩)
    simp only [setIn]
    split
    · rename_i here
      rw [List.mem_cons, List.mem_cons]
      refine or_congr_right ⟨fun mem => ⟨.inr mem, here ▸ absent x mem⟩, ?_⟩
      rintro ⟨rfl | mem, apart⟩
      · exact absurd here apart
      · exact mem
    · rename_i there
      rw [List.mem_cons, ih nodup, List.mem_cons]
      constructor
      · rintro (rfl | rfl | ⟨mem, apart⟩)
        · exact .inr ⟨.inl rfl, there⟩
        · exact .inl rfl
        · exact .inr ⟨.inr mem, apart⟩
      · rintro (rfl | ⟨rfl | mem, apart⟩)
        · exact .inr (.inl rfl)
        · exact .inl rfl
        · exact .inr (.inr ⟨mem, apart⟩)

/-- After an insertion the name has the new value, and every other name what it had. -/
theorem mem_insert {map : OrderedMap α} {key : String} {value : α} {x : String × α} :
    x ∈ (map.insert key value).entries ↔ x = (key, value) ∨ x ∈ map.entries ∧ x.1 ≠ key :=
  mem_setIn map.nodup_keys

theorem get?_eq_some {map : OrderedMap α} {key : String} {value : α} :
    map.get? key = some value ↔ (key, value) ∈ map.entries := by
  refine ⟨mem_of_get?, fun mem => ?_⟩
  rw [get?, Disk.lookup_eq_some map.nodup_keys]
  exact mem

theorem get?_map {β : Type} (f : α → β) (map : OrderedMap α) (key : String) :
    (map.map f).get? key = (map.get? key).map f := by
  ext value
  simp [get?_eq_some, OrderedMap.map]

/-- After an erasure the name has no value, and every other name what it had. -/
theorem get?_erase_eq_some {map : OrderedMap α} {key other : String} {value : α} :
    (map.erase key).get? other = some value ↔ map.get? other = some value ∧ other ≠ key := by
  simp [get?_eq_some, erase]

/-- A name has one entry only. -/
theorem filter_key {map : OrderedMap α} {key : String} {value : α}
    (found : map.get? key = some value) : map.entries.filter (·.1 == key) = [(key, value)] := by
  obtain ⟨before, after, eq, apart⟩ := List.lookup_eq_some_iff.1 found
  have nodup := map.nodup_keys
  rw [eq, List.map_append, List.map_cons, List.nodup_append, List.nodup_cons] at nodup
  have front : before.filter (·.1 == key) = [] :=
    List.filter_eq_nil_iff.2 fun entry mem same => bne_iff_ne.1 (apart entry mem)
      (beq_iff_eq.1 same).symm
  have back : after.filter (·.1 == key) = [] := by
    refine List.filter_eq_nil_iff.2 fun entry mem same => nodup.2.1.1 ?_
    exact List.mem_map.2 ⟨entry, mem, beq_iff_eq.1 same⟩
  rw [eq, List.filter_append, front, List.filter_cons_of_pos (by simp), back]
  rfl

/-- A map has the entry of a name and what is left of it without the name. -/
theorem perm_erase {map : OrderedMap α} {key : String} {value : α}
    (found : map.get? key = some value) :
    ((key, value) :: (map.erase key).entries).Perm map.entries := by
  have parts := List.filter_append_perm (·.1 == key) map.entries
  rw [filter_key found] at parts
  exact parts

theorem filterMap_get?_keys (map : OrderedMap α) : map.keys.filterMap map.get? = map.values := by
  rw [keys, values, List.filterMap_map, ← List.filterMap_eq_map]
  refine List.filterMap_congr fun entry mem => ?_
  exact get?_eq_some.2 mem

theorem mem_keys {map : OrderedMap α} {key : String} :
    key ∈ map.keys ↔ ∃ value, map.get? key = some value := by
  simp [keys, get?_eq_some]

theorem mem_values {map : OrderedMap α} {value : α} :
    value ∈ map.values ↔ ∃ key, map.get? key = some value := by
  simp [values, get?_eq_some]

section Related

variable {β : Type} {R : α → β → Prop} {map : OrderedMap α} {other : OrderedMap β}

/-- Maps with related values under each name have the same names. -/
theorem mem_keys_iff (rel : ∀ name, Option.Rel R (map.get? name) (other.get? name))
    (name : String) : name ∈ map.keys ↔ name ∈ other.keys := by
  rw [mem_keys, mem_keys]
  have here := rel name
  generalize map.get? name = v at here ⊢
  generalize other.get? name = w at here ⊢
  cases here <;> simp

/-- What holds of a value of one map holds of one of the other. -/
theorem exists_mem_values_iff (rel : ∀ name, Option.Rel R (map.get? name) (other.get? name))
    {P : α → Prop} {Q : β → Prop} (same : ∀ a b, R a b → (P a ↔ Q b)) :
    (∃ a ∈ map.values, P a) ↔ ∃ b ∈ other.values, Q b := by
  simp only [mem_values]
  constructor
  · rintro ⟨a, ⟨name, found⟩, holds⟩
    have here := rel name
    rw [found] at here
    generalize there : other.get? name = w at here
    cases here with
    | some related => exact ⟨_, ⟨name, there⟩, (same _ _ related).1 holds⟩
  · rintro ⟨b, ⟨name, found⟩, holds⟩
    have here := rel name
    rw [found] at here
    generalize there : map.get? name = v at here
    cases here with
    | some related => exact ⟨_, ⟨name, there⟩, (same _ _ related).2 holds⟩

end Related

/-- A map has no entries when nothing is found in it. -/
theorem isEmpty_iff {map : OrderedMap α} : map.isEmpty = true ↔ ∀ key, map.get? key = none := by
  rw [isEmpty, List.isEmpty_iff]
  constructor
  · intro absent key
    simp [get?, absent]
  · intro absent
    refine List.eq_nil_iff_forall_not_mem.2 fun entry mem => ?_
    exact absurd (get?_eq_some.2 mem) (by simp [absent])

end Scaffold.OrderedMap
