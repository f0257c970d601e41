import Mathlib.Data.Finset.Basic
import Scaffold.Proofs.OrderedMaps
import Scaffold.Proofs.Render.Blueprint
import Scaffold.Render.Model
import Scaffold.Schema.Build

/-!
# Undoing a migration

The migration of a users entity, run on a table that lacks the columns it adds and then undone,
gives the table back: columns and foreign keys are dropped that were added, each once, and a foreign
key goes before its column.
-/

namespace Scaffold.Render
set_option autoImplicit false

open Php (Says IsVerbatim)

namespace Change

/-- The column that a change adds. -/
def added? : Change → Option String
  | addColumn name => some name
  | _ => none

/-- The column that a change takes away. -/
def dropped? : Change → Option String
  | dropColumn name => some name
  | _ => none

end Change

/-- The columns of a table and those among them that are foreign keys. -/
@[ext]
structure Table where
  columns : Finset String
  keys : Finset String
  keyed : keys ⊆ columns

namespace Table

/-- A table after a change. A column is added once, a foreign key is made on a column that is there,
and a column with a foreign key is not dropped. -/
def change? (t : Table) : Change → Option Table
  | .addColumn name =>
    if name ∈ t.columns then none
    else some ⟨insert name t.columns, t.keys, t.keyed.trans (Finset.subset_insert ..)⟩
  | .addKey column =>
    if h : column ∈ t.columns ∧ column ∉ t.keys then some ⟨t.columns, insert column t.keys,
      Finset.insert_subset h.1 t.keyed⟩
    else none
  | .dropKey column =>
    if column ∈ t.keys then some ⟨t.columns, t.keys.erase column,
      (Finset.erase_subset ..).trans t.keyed⟩ else none
  | .dropColumn name =>
    if h : name ∈ t.columns ∧
      name ∉ t.keys then some ⟨t.columns.erase name, t.keys, Finset.subset_erase.2 ⟨t.keyed, h.2⟩⟩
    else none

/-- A table after changes one after another. -/
def run? (t : Table) (changes : List Change) : Option Table := changes.foldlM change? t

end Table

/-- A migration of a users entity and its undoing. -/
structure Undoes (e : Entity) (made undone : List Change) : Prop where
  /-- The fields whose columns the framework does not create are added, that of soft deletion among
  them. -/
  added : (made.filterMap Change.added?).Perm (e.fields.keys.filter fun name =>
    !userColumns.contains name)
  /-- What is added is removed, and nothing else. -/
  removed : (undone.filterMap Change.dropped?).Perm (made.filterMap Change.added?)
  once : (undone.filterMap Change.dropped?).Nodup
  /-- A foreign key is dropped no later than its column. -/
  keys : ∀ column, .addKey column ∈ made → ∃ front back, undone = front ++ .dropKey column :: back ∧
    .dropColumn column ∉ front
  /-- A table without the columns that are added is given back. -/
  back : ∀ t : Table, (∀ name ∈ made.filterMap Change.added?, name ∉ t.columns) →
    ∃ t', t.run? made = some t' ∧ t'.run? undone = some t

/-- The fields that are foreign keys. -/
def foreignNames (fields : List (String × Field)) : List String :=
  (fields.filter fun f => isForeign f.2).map (·.1)

/-- The foreign keys that are dropped with their columns. -/
def keyNames (fields : List (String × Field)) : List String :=
  (fields.filter fun f => isForeign f.2 && isKeyName f.1).map (·.1)

theorem foreignNames_cons (f : String × Field) (fields : List (String × Field)) :
    foreignNames (f :: fields) = foreignNames [f] ++ foreignNames fields := by
  rw [foreignNames, foreignNames, foreignNames, ← List.map_append, ← List.filter_append]
  rfl

theorem keyNames_cons (f : String × Field) (fields : List (String × Field)) :
    keyNames (f :: fields) = keyNames [f] ++ keyNames fields := by
  rw [keyNames, keyNames, keyNames, ← List.map_append, ← List.filter_append]
  rfl

variable {e : Entity} {t : Table} {changes more : List Change} {fields : List (String × Field)}
  {names : List String}

namespace Table

theorem run?_cons (change : Change) (changes : List Change) (t : Table) :
    t.run? (change :: changes) = (t.change? change).bind fun next => next.run? changes := by
  rw [run?, List.foldlM_cons]
  rfl

theorem run?_append (changes more : List Change) (t : Table) :
    t.run? (changes ++ more) = (t.run? changes).bind fun next => next.run? more := by
  rw [run?, List.foldlM_append]
  rfl

/-- The columns of fields are added, and their foreign keys. -/
theorem exists_run?_fieldChanges (fresh : ∀ f ∈ fields, f.1 ∉ t.columns)
    (nodup : (fields.map (·.1)).Nodup) : ∃ t', t.run? (fields.flatMap fieldChanges) = some t' ∧
    (∀ c, c ∈ t'.columns ↔ c ∈ t.columns ∨ c ∈ fields.map (·.1)) ∧
      ∀ c, c ∈ t'.keys ↔ c ∈ t.keys ∨ c ∈ foreignNames fields := by
  induction fields generalizing t with
  | nil => exact ⟨t, rfl, by simp, by simp [foreignNames]⟩
  | cons f fields ih =>
    obtain ⟨here, others⟩ := List.forall_mem_cons.1 fresh
    obtain ⟨apart, nodup⟩ := List.nodup_cons.1 nodup
    have free : f.1 ∉ t.keys := fun mem => here (t.keyed mem)
    have first : ∃ next, t.run? (fieldChanges f) = some next ∧
        (∀ c, c ∈ next.columns ↔ c ∈ t.columns ∨ c = f.1) ∧
        ∀ c, c ∈ next.keys ↔ c ∈ t.keys ∨ c ∈ foreignNames [f] := by
      by_cases foreign : isForeign f.2 = true
      · refine ⟨⟨insert f.1 t.columns, insert f.1 t.keys, Finset.insert_subset_insert _ t.keyed⟩,
          ?_, ?_, ?_⟩
        · simp [fieldChanges, run?, change?, here, foreign, free]
        · intro c
          simp [or_comm]
        · intro c
          simp [foreignNames, foreign, or_comm]
      · refine ⟨⟨insert f.1 t.columns, t.keys, t.keyed.trans (Finset.subset_insert ..)⟩, ?_, ?_, ?_⟩
        · simp [fieldChanges, run?, change?, here, foreign]
        · intro c
          simp [or_comm]
        · intro c
          simp [foreignNames, foreign]
    obtain ⟨next, ran, columns, keys⟩ := first
    have later : ∀ g ∈ fields, g.1 ∉ next.columns := by
      intro g mem isIn
      rcases (columns g.1).1 isIn with old | same
      · exact others g mem old
      · have found : g.1 ∈ fields.map (·.1) := List.mem_map_of_mem mem
        rw [same] at found
        exact apart found
    obtain ⟨t', further, columns', keys'⟩ := ih later nodup
    refine ⟨t', ?_, fun c => ?_, fun c => ?_⟩
    · rw [List.flatMap_cons, run?_append, ran, Option.bind_some, further]
    · rw [columns', columns, List.map_cons, List.mem_cons, or_assoc]
    · rw [keys', keys, foreignNames_cons f fields, List.mem_append, or_assoc]

/-- Foreign keys are dropped, and some of their columns with them. -/
theorem exists_run?_keyDrops (present : ∀ f ∈ fields, isForeign f.2 = true → f.1 ∈ t.keys)
    (nodup : (fields.map (·.1)).Nodup) : ∃ t', t.run? (fields.flatMap keyDrops) = some t' ∧
    (∀ c, c ∈ t'.columns ↔ c ∈ t.columns ∧ c ∉ keyNames fields) ∧
      ∀ c, c ∈ t'.keys ↔ c ∈ t.keys ∧ c ∉ foreignNames fields := by
  induction fields generalizing t with
  | nil => exact ⟨t, rfl, by simp [keyNames], by simp [foreignNames]⟩
  | cons f fields ih =>
    obtain ⟨here, others⟩ := List.forall_mem_cons.1 present
    obtain ⟨apart, nodup⟩ := List.nodup_cons.1 nodup
    have first : ∃ next, t.run? (keyDrops f) = some next ∧
        (∀ c, c ∈ next.columns ↔ c ∈ t.columns ∧ c ∉ keyNames [f]) ∧
        ∀ c, c ∈ next.keys ↔ c ∈ t.keys ∧ c ∉ foreignNames [f] := by
      by_cases foreign : isForeign f.2 = true
      · have keyed := here foreign
        by_cases usual : isKeyName f.1 = true
        · refine ⟨⟨t.columns.erase f.1, t.keys.erase f.1, Finset.erase_subset_erase _ t.keyed⟩, ?_,
            ?_, ?_⟩
          · simp [keyDrops, run?, change?, foreign, usual, keyed, t.keyed keyed]
          · intro c
            simp [keyNames, foreign, usual, and_comm]
          · intro c
            simp [foreignNames, foreign, and_comm]
        · refine ⟨⟨t.columns, t.keys.erase f.1, (Finset.erase_subset ..).trans t.keyed⟩, ?_, ?_, ?_⟩
          · simp [keyDrops, run?, change?, foreign, usual, keyed]
          · intro c
            simp [keyNames, usual]
          · intro c
            simp [foreignNames, foreign, and_comm]
      · refine ⟨t, ?_, ?_, ?_⟩
        · simp [keyDrops, run?, foreign]
        · intro c
          simp [keyNames, foreign]
        · intro c
          simp [foreignNames, foreign]
    obtain ⟨next, ran, columns, keys⟩ := first
    have later : ∀ g ∈ fields, isForeign g.2 = true → g.1 ∈ next.keys := by
      intro g mem foreign
      refine (keys g.1).2 ⟨others g mem foreign, fun isIn => ?_⟩
      obtain ⟨f', same, eq⟩ := List.mem_map.1 isIn
      obtain rfl := List.mem_singleton.1 (List.mem_of_mem_filter same)
      have found : g.1 ∈ fields.map (·.1) := List.mem_map_of_mem mem
      rw [← eq] at found
      exact apart found
    obtain ⟨t', further, columns', keys'⟩ := ih later nodup
    refine ⟨t', ?_, fun c => ?_, fun c => ?_⟩
    · rw [List.flatMap_cons, run?_append, ran, Option.bind_some, further]
    · rw [columns', columns, keyNames_cons f fields, List.mem_append, not_or, and_assoc]
    · rw [keys', keys, foreignNames_cons f fields, List.mem_append, not_or, and_assoc]

theorem exists_run?_addColumns (fresh : ∀ name ∈ names, name ∉ t.columns) (nodup : names.Nodup) :
    ∃ t', t.run? (names.map .addColumn) = some t' ∧
    (∀ c, c ∈ t'.columns ↔ c ∈ t.columns ∨ c ∈ names) ∧ t'.keys = t.keys := by
  induction names generalizing t with
  | nil => exact ⟨t, rfl, by simp, rfl⟩
  | cons name names ih =>
    obtain ⟨here, others⟩ := List.forall_mem_cons.1 fresh
    obtain ⟨apart, nodup⟩ := List.nodup_cons.1 nodup
    let next : Table := ⟨insert name t.columns, t.keys, t.keyed.trans (Finset.subset_insert ..)⟩
    have first : t.change? (.addColumn name) = some next := if_neg here
    have later : ∀ other ∈ names, other ∉ next.columns := by
      intro other mem isIn
      rcases Finset.mem_insert.1 isIn with rfl | old
      · exact apart mem
      · exact others other mem old
    obtain ⟨t', further, columns, keys⟩ := ih later nodup
    refine ⟨t', ?_, fun c => ?_, keys⟩
    · rw [List.map_cons, run?_cons, first, Option.bind_some, further]
    · rw [columns, Finset.mem_insert, List.mem_cons, or_comm (a := c = name), or_assoc]

theorem exists_run?_dropColumns (present : ∀ name ∈ names, name ∈ t.columns)
    (free : ∀ name ∈ names, name ∉ t.keys)
    (nodup : names.Nodup) : ∃ t', t.run? (names.map .dropColumn) = some t' ∧
    (∀ c, c ∈ t'.columns ↔ c ∈ t.columns ∧ c ∉ names) ∧
      t'.keys = t.keys := by
  induction names generalizing t with
  | nil => exact ⟨t, rfl, by simp, rfl⟩
  | cons name names ih =>
    obtain ⟨here, others⟩ := List.forall_mem_cons.1 present
    obtain ⟨unkeyed, unkeyed'⟩ := List.forall_mem_cons.1 free
    obtain ⟨apart, nodup⟩ := List.nodup_cons.1 nodup
    let next : Table := ⟨t.columns.erase name, t.keys, Finset.subset_erase.2 ⟨t.keyed, unkeyed⟩⟩
    have first : t.change? (.dropColumn name) = some next := by simp [change?, here, unkeyed, next]
    have later : ∀ other ∈ names, other ∈ next.columns := by
      intro other mem
      exact Finset.mem_erase.2 ⟨fun same => apart (same ▸ mem), others other mem⟩
    obtain ⟨t', further, columns, keys⟩ := ih later unkeyed' nodup
    refine ⟨t', ?_, fun c => ?_, keys⟩
    · rw [List.map_cons, run?_cons, first, Option.bind_some, further]
    · rw [columns, Finset.mem_erase, List.mem_cons, not_or]
      exact ⟨fun ⟨⟨ne, old⟩, out⟩ => ⟨old, ne, out⟩, fun ⟨old, ne, out⟩ => ⟨⟨ne, old⟩, out⟩⟩

end Table

/-! ## What a users entity adds is removed -/

theorem addedNames_nodup (e : Entity) : ((addedFields e).map (·.1)).Nodup :=
  e.fields.nodup_keys.sublist (List.filter_sublist.map _)

theorem not_mem_softColumns {name : String} (mem : name ∈ (addedFields e).map (·.1)) :
    name ∉ softColumns e := by
  obtain ⟨f, isIn, rfl⟩ := List.mem_map.1 mem
  have apart : f.1 ≠ "deleted_at" := by
    have kept := (List.mem_filter.1 isIn).2
    rw [Bool.and_eq_true, bne_iff_ne] at kept
    exact kept.2
  rw [softColumns]
  split
  · simpa using apart
  · exact List.not_mem_nil

theorem filterMap_added? (e : Entity) :
    (addChanges e).filterMap Change.added? = (addedFields e).map (·.1) ++ softColumns e := by
  have each (f : String × Field) : (fieldChanges f).filterMap Change.added? = [f.1] := by
    rw [fieldChanges]
    split <;> rfl
  have soft : ((softColumns e).map Change.addColumn).filterMap Change.added? = softColumns e := by
    rw [List.filterMap_map]
    exact List.filterMap_some
  rw [addChanges, List.filterMap_append, soft, List.filterMap_flatMap]
  simp only [each]
  rw [← List.map_eq_flatMap]

theorem filterMap_dropped? (e : Entity) : (dropChanges e).filterMap Change.dropped? =
    keyNames (addedFields e) ++ (softColumns e ++ plainColumns (addedFields e)) := by
  have each (fields : List (String × Field)) :
      (fields.flatMap keyDrops).filterMap Change.dropped? = keyNames fields := by
    induction fields with
    | nil => rfl
    | cons f fields ih =>
      have first : (keyDrops f).filterMap Change.dropped? = keyNames [f] := by
        rw [keyDrops, keyNames]
        cases foreign : isForeign f.2 <;> cases usual : isKeyName f.1 <;>
          simp [foreign, usual, List.filterMap_cons, Change.dropped?]
      rw [List.flatMap_cons, List.filterMap_append, ih, first, keyNames_cons f fields]
  have named (names : List String) :
      (names.map Change.dropColumn).filterMap Change.dropped? = names := by
    rw [List.filterMap_map]
    exact List.filterMap_some
  rw [dropChanges, List.filterMap_append, each, named]

/-- What is dropped is what is added. -/
theorem dropped_perm_added (e : Entity) :
    ((dropChanges e).filterMap Change.dropped?).Perm ((addChanges e).filterMap Change.added?) := by
  rw [filterMap_dropped?, filterMap_added?]
  have parts : (keyNames (addedFields e) ++ plainColumns (addedFields e)).Perm
      ((addedFields e).map (·.1)) := by
    rw [keyNames, plainColumns, ← List.map_append]
    exact (List.filter_append_perm _ _).map _
  refine List.Perm.trans ?_ (parts.append_right _)
  rw [List.append_assoc]
  exact List.perm_append_comm.append_left _

theorem mem_added {name : String} (e : Entity) : name ∈ (addChanges e).filterMap Change.added? ↔
    name ∈ e.fields.keys ∧ name ∉ userColumns := by
  rw [filterMap_added?, List.mem_append]
  constructor
  · rintro (mem | soft)
    · obtain ⟨f, isIn, rfl⟩ := List.mem_map.1 mem
      obtain ⟨declared, apart⟩ := List.mem_filter.1 isIn
      rw [Bool.and_eq_true, Bool.not_eq_true', Bool.eq_false_iff, ne_eq,
        List.contains_iff_mem] at apart
      exact ⟨List.mem_map_of_mem declared, apart.1⟩
    · rw [softColumns] at soft
      split at soft
      · rename_i has
        obtain rfl := List.mem_singleton.1 soft
        exact ⟨OrderedMap.has_iff_mem_keys.1 has, by decide⟩
      · cases soft
  · rintro ⟨declared, apart⟩
    by_cases soft : name = "deleted_at"
    · subst soft
      have has : e.hasSoftDeletes = true := OrderedMap.has_iff_mem_keys.2 declared
      exact .inr (by simp [softColumns, has])
    · obtain ⟨f, isIn, rfl⟩ := List.mem_map.1 declared
      exact .inl (List.mem_map_of_mem (List.mem_filter.2 ⟨isIn, by simp [apart, soft]⟩))

theorem softColumns_nodup (e : Entity) : (softColumns e).Nodup := by
  rw [softColumns]
  split <;> simp

theorem added_nodup (e : Entity) : ((addChanges e).filterMap Change.added?).Nodup := by
  rw [filterMap_added?]
  refine List.nodup_append.2 ⟨addedNames_nodup e, softColumns_nodup e, ?_⟩
  rintro name mem other soft rfl
  exact not_mem_softColumns mem soft

theorem added_perm (e : Entity) :
    ((addChanges e).filterMap Change.added?).Perm (e.fields.keys.filter fun name =>
      !userColumns.contains name) := by
  refine (List.perm_ext_iff_of_nodup (added_nodup e) (e.fields.nodup_keys.filter _)).2
    fun name => ?_
  rw [mem_added, List.mem_filter, Bool.not_eq_true', Bool.eq_false_iff, ne_eq,
    List.contains_iff_mem]
  exact Iff.rfl

/-- The foreign keys that are made are those of the fields that are added. -/
theorem mem_of_addKey {column : String} (made : .addKey column ∈ addChanges e) :
    ∃ f ∈ addedFields e, isForeign f.2 = true ∧ f.1 = column := by
  rcases List.mem_append.1 made with mem | soft
  · obtain ⟨f, isIn, here⟩ := List.mem_flatMap.1 mem
    rcases List.mem_cons.1 here with other | key
    · cases other
    · split at key
      · rename_i foreign
        obtain rfl := Change.addKey.inj (List.mem_singleton.1 key)
        exact ⟨f, isIn, foreign, rfl⟩
      · cases key
  · obtain ⟨_, _, other⟩ := List.mem_map.1 soft
    cases other

theorem exists_dropKey {column : String} (made : .addKey column ∈ addChanges e) :
    ∃ front back, dropChanges e = front ++ .dropKey column :: back ∧
    .dropColumn column ∉ front := by
  obtain ⟨f, isIn, foreign, rfl⟩ := mem_of_addKey made
  obtain ⟨before, after, whole⟩ := List.append_of_mem isIn
  have nodup := addedNames_nodup e
  rw [whole, List.map_append, List.map_cons, List.nodup_append] at nodup
  have key : ∃ rest, keyDrops f = .dropKey f.1 :: rest := ⟨_, if_pos foreign⟩
  obtain ⟨rest, key⟩ := key
  refine ⟨before.flatMap keyDrops, ?_, ?_, ?_⟩
  · exact rest ++ after.flatMap keyDrops ++
      (softColumns e ++ plainColumns (addedFields e)).map .dropColumn
  · rw [dropChanges]
    nth_rewrite 1 [whole]
    simp [key]
  · -- what comes before drops columns of other names
    intro mem
    obtain ⟨g, earlier, here⟩ := List.mem_flatMap.1 mem
    have same : g.1 = f.1 := by
      rw [keyDrops] at here
      split at here
      · split at here
        · have same : f.1 = g.1 := by simpa using here
          exact same.symm
        · cases List.mem_singleton.1 here
      · cases here
    exact nodup.2.2 g.1 (List.mem_map_of_mem earlier) f.1 (List.mem_cons_self ..) same

theorem mem_foreignNames {c : String} :
    c ∈ foreignNames fields ↔ ∃ f ∈ fields, isForeign f.2 = true ∧ f.1 = c := by
  simp [foreignNames, and_assoc]

/-- The columns that are not dropped with a foreign key. -/
theorem mem_plainColumns (nodup : (fields.map (·.1)).Nodup) {c : String} :
    c ∈ plainColumns fields ↔ c ∈ fields.map (·.1) ∧ c ∉ keyNames fields := by
  rw [plainColumns, keyNames]
  constructor
  · intro mem
    obtain ⟨f, isIn, rfl⟩ := List.mem_map.1 mem
    obtain ⟨isIn, plain⟩ := List.mem_filter.1 isIn
    refine ⟨List.mem_map_of_mem isIn, fun key => ?_⟩
    obtain ⟨g, isKey, same⟩ := List.mem_map.1 key
    obtain ⟨isIn', keyed⟩ := List.mem_filter.1 isKey
    obtain rfl := List.inj_on_of_nodup_map nodup isIn' isIn same
    rw [keyed] at plain
    cases plain
  · rintro ⟨mem, unkeyed⟩
    obtain ⟨f, isIn, rfl⟩ := List.mem_map.1 mem
    refine List.mem_map_of_mem (List.mem_filter.2 ⟨isIn, ?_⟩)
    rw [Bool.not_eq_true', Bool.eq_false_iff]
    exact fun keyed => unkeyed (List.mem_map_of_mem (List.mem_filter.2 ⟨isIn, keyed⟩))

theorem dropped_nodup (e : Entity) : (softColumns e ++ plainColumns (addedFields e)).Nodup := by
  have whole := (dropped_perm_added e).nodup_iff.2 (added_nodup e)
  rw [filterMap_dropped?] at whole
  exact (List.nodup_append.1 whole).2.1

theorem keyNames_subset : keyNames fields ⊆ fields.map (·.1) :=
  List.map_subset _ (List.filter_subset_self _)

theorem foreignNames_subset : foreignNames fields ⊆ fields.map (·.1) :=
  List.map_subset _ (List.filter_subset_self _)

/-- A table without the columns that a users entity adds is given back. -/
theorem exists_run?_back
    (fresh : ∀ name ∈ (addChanges e).filterMap Change.added?, name ∉ t.columns) :
    ∃ t', t.run? (addChanges e) = some t' ∧ t'.run? (dropChanges e) = some t := by
  rw [filterMap_added?, List.forall_mem_append] at fresh
  obtain ⟨fresh, softFresh⟩ := fresh
  have nodup := addedNames_nodup e
  have apart {c : String} (mem : c ∈ (addedFields e).map (·.1)) : c ∉ softColumns e :=
    not_mem_softColumns mem
  have plain {c : String} : c ∈ plainColumns (addedFields e) ↔ _ := mem_plainColumns nodup
  -- the columns and the foreign keys of the fields, then the column of soft deletion
  obtain ⟨t₁, ran₁, columns₁, keys₁⟩ :=
    Table.exists_run?_fieldChanges
      (fun f mem => fresh f.1 (List.mem_map_of_mem (f := (·.1)) mem)) nodup
  have free₁ : ∀ name ∈ softColumns e, name ∉ t₁.columns := by
    intro name soft mem
    rcases (columns₁ name).1 mem with old | new
    · exact softFresh name soft old
    · exact apart new soft
  obtain ⟨t₂, ran₂, columns₂, keys₂⟩ := Table.exists_run?_addColumns free₁ (softColumns_nodup e)
  -- the foreign keys go, with the columns of the usual names
  have keyed₂ : ∀ f ∈ addedFields e, isForeign f.2 = true → f.1 ∈ t₂.keys := by
    intro f mem foreign
    rw [keys₂]
    exact (keys₁ f.1).2 (.inr (mem_foreignNames.2 ⟨f, mem, foreign, rfl⟩))
  obtain ⟨t₃, ran₃, columns₃, keys₃⟩ := Table.exists_run?_keyDrops keyed₂ nodup
  have keys : t₃.keys = t.keys := by
    ext c
    rw [keys₃, keys₂, keys₁]
    refine ⟨fun ⟨either, out⟩ => either.resolve_right out, fun old => ⟨.inl old, fun foreign => ?_⟩⟩
    exact fresh c (foreignNames_subset foreign) (t.keyed old)
  -- the other columns go
  have present₃ : ∀ name ∈ softColumns e ++ plainColumns (addedFields e), name ∈ t₃.columns := by
    intro name mem
    rw [columns₃, columns₂, columns₁]
    rcases List.mem_append.1 mem with soft | other
    · exact ⟨.inr soft, fun key => apart (keyNames_subset key) soft⟩
    · exact ⟨.inl (.inr (plain.1 other).1), (plain.1 other).2⟩
  have free₃ : ∀ name ∈ softColumns e ++ plainColumns (addedFields e), name ∉ t₃.keys := by
    intro name mem key
    rw [keys] at key
    rcases List.mem_append.1 mem with soft | other
    · exact softFresh name soft (t.keyed key)
    · exact fresh name (plain.1 other).1 (t.keyed key)
  obtain ⟨t₄, ran₄, columns₄, keys₄⟩ :=
    Table.exists_run?_dropColumns present₃ free₃ (dropped_nodup e)
  have columns : t₄.columns = t.columns := by
    ext c
    rw [columns₄, columns₃, columns₂, columns₁, List.mem_append, plain]
    constructor
    · rintro ⟨⟨(old | new) | soft, unkeyed⟩, out⟩
      · exact old
      · exact absurd (.inr ⟨new, unkeyed⟩) out
      · exact absurd (.inl soft) out
    · intro old
      refine ⟨⟨.inl (.inl old), fun key => fresh c (keyNames_subset key) old⟩, ?_⟩
      rintro (soft | other)
      · exact softFresh c soft old
      · exact fresh c other.1 old
  refine ⟨t₂, ?_, ?_⟩
  · rw [addChanges, Table.run?_append, ran₁, Option.bind_some, ran₂]
  · rw [dropChanges, Table.run?_append, ran₃, Option.bind_some, ran₄,
      Table.ext columns (keys₄.trans keys)]

theorem undoes_changes (e : Entity) : Undoes e (addChanges e) (dropChanges e) where
  added := added_perm e
  removed := dropped_perm_added e
  once := (dropped_perm_added e).nodup_iff.2 (added_nodup e)
  keys := fun _ made => exists_dropKey made
  back := fun _ fresh => exists_run?_back fresh

/-- Undoing the migration of a users entity takes away what the migration adds, where the names of
its fields stand for themselves between quotes. -/
theorem exists_undoes {text : String} (told : ∀ f ∈ addedFields e, IsTold f)
    (made : usersMigration e = .ok text) :
    ∃ up down added dropped,
      text = migrationPage (onTable "table" "users" up) (onTable "table" "users" down) ∧
      changes? up = some added ∧ changes? down = some dropped ∧ Undoes e added dropped := by
  obtain ⟨columns, read, rfl⟩ := map_eq_ok.1 made
  have adds := changes?_add told read
  have drops := changes?_drop told
  by_cases absent :
    (columns ++ if e.hasSoftDeletes then ["$table->softDeletes();"] else []).isEmpty = true
  · -- nothing is added: a comment stands in both directions
    have comment : changes? ["//"] = some [] := changes?_single (if_pos rfl)
    rw [List.isEmpty_iff.1 absent] at adds
    refine ⟨["//"], dropLines e ++ ["//"], addChanges e, dropChanges e, if_pos absent,
      comment.trans adds, ?_, undoes_changes e⟩
    rw [changes?_append drops comment, List.append_nil]
  · exact ⟨_, _, addChanges e, dropChanges e, if_neg absent, adds, drops, undoes_changes e⟩

/-- A document with one model, of users, that has the given fields. -/
def usersDocument (fields : List (String × String)) : Json.Members :=
  [("meta", .object []),
    ("models", .object [("User",
      .object [("fields", .object (fields.map fun f => (f.1, .string f.2)))])])]

/-- Fields that the framework has, foreign keys with and without the usual name, plain ones and soft
deletion. -/
def teamFields : List (String × String) :=
  [("name", "string"), ("team_id", "foreign:teams|nullable"), ("deleted_at", "datetime|nullable"),
    ("boss", "foreign:users"), ("bio", "text|default:it's"), ("age", "integer|index")]

theorem exists_undoes_teamFields : ∃ s e text, Schema.build (usersDocument teamFields) = .ok s ∧
    e ∈ s.entities.values ∧ isUsers e = true ∧
    (addedFields e).map (·.1) = ["team_id", "boss", "bio", "age"] ∧ e.hasSoftDeletes = true ∧
    usersMigration e = .ok text ∧
    ∃ up down added dropped,
      text = migrationPage (onTable "table" "users" up) (onTable "table" "users" down) ∧
      changes? up = some added ∧ changes? down = some dropped ∧ Undoes e added dropped := by
  have checked : succeeds (Schema.build (usersDocument teamFields))
      (fun s => (s.entities.get? "User").any fun e =>
        isUsers e && (addedFields e).map (·.1) == ["team_id", "boss", "bio", "age"] &&
          e.hasSoftDeletes && succeeds (usersMigration e) (fun _ => true) &&
          (addedFields e).all fun f =>
            decide (IsVerbatim f.1 ∧ IsVerbatim (f.2.foreignTable?.getD ""))) = true := by
    decide +kernel
  obtain ⟨s, built, holds⟩ := succeeds_eq_true.1 checked
  simp only [Bool.and_eq_true, Option.any_eq_true, beq_iff_eq, List.all_eq_true,
    decide_eq_true_eq] at holds
  obtain ⟨e, found, ⟨⟨⟨users, names⟩, soft⟩, made⟩, verbatim⟩ := holds
  obtain ⟨text, made, -⟩ := succeeds_eq_true.1 made
  have told : ∀ f ∈ addedFields e, IsTold f :=
    fun f mem => ⟨(verbatim f mem).1, fun _ => ⟨_, (verbatim f mem).2⟩⟩
  exact ⟨s, e, text, built, OrderedMap.mem_values.2 ⟨_, found⟩, users, names, soft, made,
    exists_undoes told made⟩

/-- A name with two backslashes in a row: the column that is added has one of them, and a column
with both is dropped. -/
theorem not_undoes_backslashes :
    ∃ s e up down added dropped, Schema.build (usersDocument [("a\\\\b", "string")]) = .ok s ∧
    e ∈ s.entities.values ∧ isUsers e = true ∧
    usersMigration e = .ok
      (migrationPage (onTable "table" "users" up) (onTable "table" "users" down)) ∧
    changes? up = some added ∧ added = [.addColumn "a\\b"] ∧ changes? down = some dropped ∧
    dropped = [.dropColumn "a\\\\b"] ∧ ¬ Undoes e added dropped := by
  let up := ["$table->string('a\\\\b');"]
  let down := ["$table->dropColumn(['a\\\\\\\\b']);"]
  have checked : succeeds (Schema.build (usersDocument [("a\\\\b", "string")]))
      (fun s => (s.entities.get? "User").any fun e =>
        isUsers e && succeeds (usersMigration e)
          (· == migrationPage (onTable "table" "users" up) (onTable "table" "users" down))) =
          true := by
    decide +kernel
  obtain ⟨s, built, holds⟩ := succeeds_eq_true.1 checked
  simp only [Bool.and_eq_true, Option.any_eq_true] at holds
  obtain ⟨e, found, users, made⟩ := holds
  obtain ⟨text, made, same⟩ := succeeds_eq_true.1 made
  rw [eq_of_beq same] at made
  refine ⟨s, e, up, down, _, _, built, OrderedMap.mem_values.2 ⟨_, found⟩, users, made, ?_, rfl, ?_,
    rfl, fun undoes => ?_⟩
  · decide +kernel
  · decide +kernel
  · have removed : ["a\\\\b"].Perm ["a\\b"] := undoes.removed
    exact absurd (List.singleton_perm_singleton.1 removed) (by decide)

end Scaffold.Render
