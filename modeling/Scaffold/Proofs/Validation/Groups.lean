import Scaffold.Proofs.Schema.Building
import Scaffold.Validation

/-!
# Groups of a document under check

The blocks of a group in the order in which they are declared, the members of a block that can be
read and those that cannot, and what checking a group gives: each issue at the place of the member
that it is about.
-/

namespace Scaffold
set_option autoImplicit false

/-- The objects of a group under names that are not blank, in order. -/
def Json.Members.blocks (members : Json.Members) : List (String × Json.Members) :=
  members.filterMap fun m =>
    match m.2, Text.isBlankText m.1 with
    | .object config, false => some (m.1, config)
    | _, _ => none

namespace Schema

/-! Blocks -/

section Blocks

variable {α : Type} {nameOf : α → String}
  {make : (name : String) → Json.Members → Except BuildError { a : α // nameOf a = name }}
  {note : String → Issue}

theorem mem_blocks {members config : Json.Members} {name : String} :
    (name, config) ∈ members.blocks ↔ (name, .object config) ∈ members ∧
    Text.isBlankText name = false := by
  rw [Json.Members.blocks, List.mem_filterMap]
  constructor
  · rintro ⟨⟨other, value⟩, mem, filled⟩
    dsimp only at filled
    split at filled
    · rename_i named
      obtain ⟨rfl, rfl⟩ := Prod.mk.inj (Option.some.inj filled)
      exact ⟨mem, named⟩
    · cases filled
  · rintro ⟨mem, named⟩
    exact ⟨_, mem, by simp [named]⟩

/-- Blocks are built in the order in which they are declared. -/
theorem names_of_blocksOf {members : Json.Members} {blocks : List (Named nameOf)}
    {issues : List Issue} (h : blocksOf make note members = .ok (blocks, issues)) :
    blocks.map (·.1.1) = members.blocks.map (·.1) := by
  induction members generalizing blocks issues with
  | nil =>
    obtain ⟨rfl, -⟩ := Prod.mk.inj (Except.ok.inj h)
    rfl
  | cons m rest ih =>
    obtain ⟨name, value⟩ := m
    unfold blocksOf at h
    split at h
    · rename_i config named
      simp only [bind_eq_ok] at h
      obtain ⟨b, -, ⟨others, issues'⟩, read, made⟩ := h
      obtain ⟨rfl, -⟩ := Prod.mk.inj (Except.ok.inj made)
      rw [List.map_cons, ih read]
      simp [Json.Members.blocks, named]
    · rename_i noBlock
      obtain ⟨⟨others, issues'⟩, read, made⟩ := map_eq_ok.1 h
      obtain ⟨rfl, -⟩ := Prod.mk.inj made
      rw [ih read, Json.Members.blocks, Json.Members.blocks, List.filterMap_cons]
      split
      · rfl
      · rename_i filled
        split at filled
        · rename_i config isObject named
          exact absurd named (noBlock config isObject)
        · cases filled

variable {members : Json.Members} {blocks : List (Named nameOf)} {issues : List Issue}

/-- A map of blocks has the names of the blocks, in order. -/
theorem keys_mapOf (nodup : (members.map (·.1)).Nodup)
    (h : blocksOf make note members = .ok (blocks, issues)) :
    (mapOf blocks).keys = members.blocks.map (·.1) := by
  have distinct : ((blocks.map (·.1)).map (·.1)).Nodup := by
    rw [List.map_map]
    exact nodup.sublist (areBlocks_of_blocksOf h).sublist
  rw [← names_of_blocksOf h, OrderedMap.keys, mapOf,
    OrderedMap.entries_ofList distinct, List.map_map]
  rfl

theorem flatMap_mapOf {β : Type} (nodup : (members.map (·.1)).Nodup)
    (h : blocksOf make note members = .ok (blocks, issues))
    (f : α → List β) : (mapOf blocks).values.flatMap f =
      members.blocks.flatMap fun block => ((mapOf blocks).get? block.1).elim [] f := by
  rw [OrderedMap.flatMap_values, keys_mapOf nodup h, List.flatMap_map]

/-- Each block is built. -/
theorem exists_of_mem_blocks (nodup : (members.map (·.1)).Nodup)
    (h : blocksOf make note members = .ok (blocks, issues))
    {name : String} {config : Json.Members} (mem : (name, config) ∈ members.blocks) :
    ∃ a, make name config = .ok a ∧ (mapOf blocks).get? name = some a.1 := by
  obtain ⟨mem, named⟩ := mem_blocks.1 mem
  have areBlocks := areBlocks_of_blocksOf h
  obtain ⟨a, made, -⟩ := areBlocks.complete name config mem named
  refine ⟨a, made, ?_⟩
  rw [areBlocks.get?_eq_some nodup]
  exact ⟨config, a, (Json.get?_eq_some nodup).2 mem, named, made, rfl⟩

end Blocks

/-! Parts of a block -/

section Parts

variable {α ε : Type}

/-- What is wrong with a member of a group: it cannot be read, or else the part that it gives is
wrong. -/
def partError? (read : Json → Except ε α) (note : String → ε → Issue) (owner : String)
    (wrong? : String × α → Option Problem) (m : String × Json) : Option Problem :=
  match read m.2 with
  | .ok part => wrong? (m.1, part)
  | .error e => some (.issue owner (note m.1 e))

variable {read : Json → Except ε α} {note : String → ε → Issue} {owner : String}
  {members : Json.Members}

/-- What can be read and what cannot make up a group. -/
theorem readable_eq_nil :
    (readable read note members).1 = [] ∧ (readable read note members).2 = [] ↔ members = [] := by
  cases members with
  | nil => simp [readable]
  | cons m rest =>
    simp only [readable]
    cases read m.2 <;> simp

/-- The errors of a group are one for each member that cannot be read, and those of the parts that
can. -/
theorem partErrors_perm (wrong? : String × α → Option Problem) :
    (members.filterMap (partError? read note owner wrong?)).Perm
    ((readable read note members).2.map (.issue owner) ++
      (readable read note members).1.filterMap wrong?) := by
  induction members with
  | nil => exact .nil
  | cons m rest ih =>
    obtain ⟨name, value⟩ := m
    simp only [readable]
    cases given : read value with
    | error e =>
      have here :
          partError? read note owner wrong? (name, value) = some (.issue owner (note name e)) := by
        simp only [partError?, given]
      rw [List.filterMap_cons_some here]
      exact ih.cons _
    | ok part =>
      have here : partError? read note owner wrong? (name, value) = wrong? (name, part) := by
        simp only [partError?, given]
      dsimp only
      cases wrong : wrong? (name, part) with
      | none =>
        rw [List.filterMap_cons_none (here.trans wrong), List.filterMap_cons_none wrong]
        exact ih
      | some problem =>
        rw [List.filterMap_cons_some (here.trans wrong), List.filterMap_cons_some wrong]
        exact (ih.cons problem).trans List.perm_middle.symm

/-- Checking a group takes up each issue at the place of the member that it is about, and leaves
none over. -/
theorem partsProblems_readable {parts : OrderedMap α} {check : String → α → List Problem}
    {issues : OrderedMap Issue} (subject : ∀ name e, (note name e).subject = owner ++ "." ++ name)
    (nodup : (members.map (·.1)).Nodup)
    (found : ∀ m ∈ members, parts.get? m.1 = (read m.2).toOption)
    (noted : issues.entries = (readable read note members).2.map fun i => (i.subject, i)) :
    Validation.partsProblems owner parts check issues (members.map (·.1)) = members.flatMap fun m =>
      match read m.2 with
      | .ok part => check m.1 part
      | .error e => [.issue owner (note m.1 e)] := by
  induction members generalizing issues with
  | nil => simp [Validation.partsProblems, OrderedMap.values, noted, readable]
  | cons m rest ih =>
    obtain ⟨name, value⟩ := m
    obtain ⟨fresh, nodup⟩ := List.nodup_cons.1 nodup
    have here := found _ (List.mem_cons_self ..)
    have others (m : String × Json) (mem : m ∈ rest) := found m (List.mem_cons_of_mem _ mem)
    have absent : ∀ i ∈ (readable read note rest).2, i.subject ≠ owner ++ "." ++ name := by
      intro i mem same
      obtain ⟨other, v, e, isIn, -, rfl⟩ := mem_readable_snd.1 mem
      rw [subject, String.append_right_inj] at same
      exact fresh (List.mem_map.2 ⟨_, isIn, same⟩)
    rw [List.map_cons, List.flatMap_cons, Validation.partsProblems]
    cases given : read value with
    | ok part =>
      simp only [readable, given] at noted
      have unnoted : issues.get? (owner ++ "." ++ name) = none := by
        rw [Option.eq_none_iff_forall_ne_some]
        intro i isNoted
        have mem := OrderedMap.get?_eq_some.1 isNoted
        rw [noted, List.mem_map] at mem
        obtain ⟨i, mem, same⟩ := mem
        exact absent i mem (Prod.mk.inj same).1
      simp only [unnoted, here, given, Except.toOption]
      rw [ih nodup others noted]
    | error e =>
      simp only [readable, given, List.map_cons, subject] at noted
      have isNoted : issues.get? (owner ++ "." ++ name) = some (note name e) := by
        rw [OrderedMap.get?_eq_some, noted]
        exact List.mem_cons_self ..
      have erased : (issues.erase (owner ++ "." ++ name)).entries = (readable read note rest).2.map
          fun i => (i.subject, i) := by
        simp only [OrderedMap.erase, noted, bne_self_eq_false, Bool.false_eq_true,
          not_false_eq_true, List.filter_cons_of_neg]
        rw [List.filter_eq_self]
        intro entry mem
        obtain ⟨i, isIn, rfl⟩ := List.mem_map.1 mem
        exact bne_iff_ne.2 (absent i isIn)
      simp only [isNoted]
      rw [ih nodup others erased, List.singleton_append]

theorem nodup_subjects (subject : ∀ name e, (note name e).subject = owner ++ "." ++ name)
    (nodup : (members.map (·.1)).Nodup) :
    ((readable read note members).2.map (·.subject)).Nodup := by
  have sublist : ((readable read note members).2.map (·.subject)).Sublist (members.map fun m =>
      owner ++ "." ++ m.1) := by
    clear nodup
    induction members with
    | nil => exact .slnil
    | cons m rest ih =>
      obtain ⟨name, value⟩ := m
      simp only [readable]
      cases read value with
      | ok part => exact ih.cons _
      | error e =>
        rw [List.map_cons, List.map_cons, subject]
        exact ih.cons_cons _
  have places : (members.map fun m => owner ++ "." ++ m.1) = (members.map (·.1)).map fun name =>
      owner ++ "." ++ name := by
    rw [List.map_map]
    rfl
  refine .sublist sublist ?_
  rw [places]
  apply nodup.map
  intro name other same
  exact (String.append_right_inj _).1 same

/-- The parts that a group gives, each under its name. -/
theorem entries_readable (nodup : (members.map (·.1)).Nodup) :
    (OrderedMap.ofList (readable read note members).1).entries = (readable read note members).1 :=
  OrderedMap.entries_ofList (nodup.sublist sublist_readable)

end Parts

/-! Issues of a model -/

/-- Of issues that are all of one kind, those of a kind are all or none. -/
theorem filter_code {issues : List Issue} {kind : IssueCode} (all : ∀ i ∈ issues, i.code = kind)
    (code : IssueCode) : issues.filter (·.code == code) = if kind = code then issues else [] := by
  split
  · rename_i same
    rw [List.filter_eq_self]
    intro i mem
    rw [all i mem, same, beq_self_eq_true]
  · rename_i apart
    rw [List.filter_eq_nil_iff]
    intro i mem
    rw [all i mem, beq_iff_eq]
    exact apart

theorem code_of_readable {α ε : Type} (read : Json → Except ε α) {note : String → ε → Issue}
    {kind : IssueCode} (code : ∀ name e, (note name e).code = kind) (members : Json.Members) :
    ∀ i ∈ (readable read note members).2, i.code = kind := by
  intro i mem
  obtain ⟨name, v, e, -, -, rfl⟩ := mem_readable_snd.1 mem
  exact code name e

/-- The issues of a model about its fields and its relations are those of the two groups. -/
theorem issues_of_entityOf {name : String} {config : Json.Members}
    {e : { e : Entity // e.name = name }} (h : entityOf name config = .ok e) :
    e.1.issues.filter (·.code == .malformedField) =
      (readable readField (fieldNote name) (config.group "fields")).2 ∧
      e.1.issues.filter (·.code == .malformedRelation) =
        (readable Relation.ofJson (.relation name) (config.group "relations")).2 := by
  unfold entityOf at h
  simp only [bind_eq_ok, objectAt_fst] at h
  obtain ⟨⟨fields, fieldIssues⟩, fieldsRead, ⟨factory, factoryIssues⟩, factoryRead, h⟩ := h
  have clear := exists_fieldsOf_iff.1 ⟨_, fieldsRead⟩
  obtain ⟨-, rfl⟩ :=
    Prod.mk.inj (Except.ok.inj ((fieldsOf_of_areClear clear).symm.trans fieldsRead))
  split at h
  · cases h
  obtain rfl := Except.ok.inj h
  have group (value : Option Json) (subject : String) :
      ∀ i ∈ (objectAt value subject).2, i.code = .invalidStructure := by
    intro i mem
    obtain ⟨v, -, -, rfl⟩ := mem_objectAt_snd.1 mem
    rfl
  have routes : ∀ i ∈ (routesOf name (config.get? "routes")).2, i.code = .invalidStructure := by
    intro i mem
    obtain ⟨v, -, -, rfl⟩ := mem_routesOf_snd.1 mem
    rfl
  have filters : ∀ i ∈ (filterOf name (config.group "filters")).2, i.code = .invalidStructure := by
    intro i mem
    rcases mem_filterOf_snd.1 mem with ⟨v, -, -, rfl⟩ | ⟨v, -, -, rfl⟩ <;> rfl
  have counted : ∀ i ∈ factoryIssues, i.code = .invalidStructure := by
    intro i mem
    obtain ⟨v, -, -, rfl⟩ := (mem_factoryOf_snd factoryRead).1 mem
    rfl
  have fieldCode : ∀ field e, (fieldNote name field e).code = .malformedField := by
    intro field e
    cases e <;> rfl
  have relationCode : ∀ relation e, (Issue.relation name relation e).code = .malformedRelation :=
    fun _ _ => rfl
  have policyCode : ∀ action e, (Issue.policy name action e).code = .malformedPolicy :=
    fun _ _ => rfl
  have actionCode (group : String) :
    ∀ stage e, (Issue.action name group stage e).code = .malformedAction := fun _ _ => rfl
  have fields := code_of_readable readField fieldCode (config.group "fields")
  have relations := code_of_readable Relation.ofJson relationCode (config.group "relations")
  have policies := code_of_readable Rule.ofJson policyCode (config.group "policies")
  have actions (group : String) :=
    code_of_readable Action.listOfJson (actionCode group) (config.group group)
  simp only [actionsOf, objectAt_fst, List.filter_append, filter_code (group _ _),
    filter_code routes, filter_code filters, filter_code counted, filter_code fields,
    filter_code relations, filter_code policies, filter_code (actions _)]
  simp

section Model

variable {config : Json.Members} {name : String} {e : { e : Entity // e.name = name }}

theorem fields_of_entityOf (h : entityOf name config = .ok e) :
    e.1.fields = .ofList (readable readField (fieldNote name) (config.group "fields")).1 := by
  obtain ⟨fields, issues, read, areFields⟩ := (Entity.isFrom_of_entityOf h).fields
  rw [objectAt_fst, e.2] at read
  have clear := exists_fieldsOf_iff.1 ⟨_, read⟩
  obtain ⟨rfl, -⟩ := Prod.mk.inj (Except.ok.inj ((fieldsOf_of_areClear clear).symm.trans read))
  exact areFields

theorem relations_of_entityOf (h : entityOf name config = .ok e) :
    e.1.relations = .ofList
      (readable Relation.ofJson (.relation name) (config.group "relations")).1 := by
  rw [(Entity.isFrom_of_entityOf h).relations, objectAt_fst, e.2]

end Model

end Schema
end Scaffold
