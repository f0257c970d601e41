/-!
# Maps in order of insertion

A finite map from names that lists its entries in the order in which their names first came. Each
name stands once.
-/

namespace Scaffold
set_option autoImplicit false

/-- Entries under distinct names, in the order in which the names first came. -/
structure OrderedMap (α : Type) where
  entries : List (String × α)
  nodup_keys : (entries.map (·.1)).Nodup

namespace OrderedMap

variable {α β : Type}

instance : Inhabited (OrderedMap α) := ⟨⟨[], by simp⟩⟩

def empty : OrderedMap α := ⟨[], by simp⟩

def keys (map : OrderedMap α) : List String := map.entries.map (·.1)

def values (map : OrderedMap α) : List α := map.entries.map (·.2)

def size (map : OrderedMap α) : Nat := map.entries.length

def isEmpty (map : OrderedMap α) : Bool := map.entries.isEmpty

def get? (map : OrderedMap α) (key : String) : Option α := map.entries.lookup key

def has (map : OrderedMap α) (key : String) : Bool := (map.get? key).isSome

/-- The entries with the value under `key` replaced, or a new entry at the end. -/
def setIn (key : String) (value : α) : List (String × α) → List (String × α)
  | [] => [(key, value)]
  | entry :: rest =>
    if entry.1 = key then (key, value) :: rest else entry :: setIn key value rest

theorem keys_setIn (key : String) (value : α) (entries : List (String × α)) :
    (setIn key value entries).map (·.1) =
      if key ∈ entries.map (·.1) then entries.map (·.1) else entries.map (·.1) ++ [key] := by
  induction entries with
  | nil => simp [setIn]
  | cons entry rest ih =>
    by_cases h : entry.1 = key
    · simp [setIn, h]
    · have h' : ¬ key = entry.1 := fun e => h e.symm
      simp only [setIn, h, if_false, List.map_cons, ih, List.mem_cons, h', false_or]
      split <;> simp

/-- Sets the value under a name: a new name comes last, one that is there keeps its place. -/
def insert (map : OrderedMap α) (key : String) (value : α) : OrderedMap α where
  entries := setIn key value map.entries
  nodup_keys := by
    rw [keys_setIn]
    split
    · exact map.nodup_keys
    · rename_i h
      rw [List.nodup_append]
      exact ⟨map.nodup_keys,
        by simp, by simp only [List.mem_singleton]; rintro a ha b rfl rfl; exact h ha⟩

/-- Without the entry under a name. -/
def erase (map : OrderedMap α) (key : String) : OrderedMap α where
  entries := map.entries.filter (·.1 != key)
  nodup_keys := map.nodup_keys.sublist ((List.filter_sublist).map _)

/-- The map of entries put in one after another. -/
def ofList (entries : List (String × α)) : OrderedMap α :=
  entries.foldl (fun map entry => map.insert entry.1 entry.2) empty

/-- The map with every value changed. -/
def map (f : α → β) (map : OrderedMap α) : OrderedMap β where
  entries := map.entries.map fun entry => (entry.1, f entry.2)
  nodup_keys := by simpa [List.map_map, Function.comp_def] using map.nodup_keys

theorem keys_insert (map : OrderedMap α) (key : String) (value : α) :
    (map.insert key value).keys = if key ∈ map.keys then map.keys else map.keys ++ [key] :=
  keys_setIn key value map.entries

theorem mem_of_mem_setIn {key : String} {value : α} {entries : List (String × α)} {x : String × α}
    (h : x ∈ setIn key value entries) : x = (key, value) ∨ x ∈ entries := by
  induction entries with
  | nil => exact .inl (List.mem_singleton.1 h)
  | cons entry rest ih =>
    simp only [setIn] at h
    split at h
    · exact (List.mem_cons.1 h).imp_right (List.mem_cons_of_mem _)
    · rcases List.mem_cons.1 h with rfl | h
      · exact .inr (List.mem_cons_self ..)
      · exact (ih h).imp_right (List.mem_cons_of_mem _)

/-- A map has no entries but those that were put in. -/
theorem mem_of_mem_ofList {entries : List (String × α)} {x : String × α}
    (h : x ∈ (ofList entries).entries) : x ∈ entries := by
  have fold : ∀ (entries : List (String × α)) (map : OrderedMap α),
      x ∈ (entries.foldl (fun map entry => map.insert entry.1 entry.2) map).entries →
        x ∈ map.entries ∨ x ∈ entries := by
    intro entries
    induction entries with
    | nil => exact fun _ h => .inl h
    | cons entry rest ih =>
      intro map h
      rcases ih _ h with h | h
      · rcases mem_of_mem_setIn h with rfl | h
        · exact .inr (List.mem_cons_self ..)
        · exact .inl h
      · exact .inr (List.mem_cons_of_mem _ h)
  exact (fold entries empty h).resolve_left (by simp [empty])

theorem nodup (map : OrderedMap α) : map.keys.Nodup := map.nodup_keys

theorem mem_of_get? {map : OrderedMap α} {key : String} {value : α}
    (h : map.get? key = some value) : (key, value) ∈ map.entries := by
  obtain ⟨before, after, eq, -⟩ := List.lookup_eq_some_iff.1 h
  simp [eq]

theorem has_iff_mem_keys {map : OrderedMap α} {key : String} :
    map.has key = true ↔ key ∈ map.keys := by
  simp [has, get?, keys, List.lookup_isSome_iff]

end OrderedMap
end Scaffold
