import Scaffold.Proofs.Definition.Decimals
import Scaffold.Proofs.Schema.Documents

/-!
# What is wrong in a document

The parts of a document that cannot be read, each with the issue that stands for it: `Entity.Flaw`,
`Pivot.Flaw` and `Schema.Flaw`. The issues that are met while a block or a schema is built are these
and no others: `mem_issues_of_entityOf`, `mem_issues_of_pivotOf` and `mem_issues_of_build`.
-/

namespace Scaffold
set_option autoImplicit false

namespace Json

/-- The members of the object under a key, if there is one. -/
def Members.group (members : Members) (key : String) : Members :=
  match members.get? key with
  | some (.object inner) => inner
  | _ => []

/-- A value where an object is expected, that is neither one nor absent. -/
def IsMisplaced (value : Json) : Prop := value ≠ .null ∧ ∀ members, value ≠ .object members

/-- A value where a list is expected, that is neither one nor absent. -/
def IsNoList (value : Json) : Prop := value ≠ .null ∧ ∀ items, value ≠ .array items

variable {members : Members} {key : String}

theorem group_of_get? {inner : Members} (h : members.get? key = some (.object inner)) :
    members.group key = inner := by
  rw [Members.group, h]

theorem group_of_ne (h : ∀ inner, members.get? key ≠ some (.object inner)) :
    members.group key = [] := by
  unfold Members.group
  split
  · exact absurd (by assumption) (h _)
  · rfl

theorem get?_nil (key : String) : Members.get? [] key = none := rfl

theorem isSound_group (sound : (object members).isSound = true) (key : String) :
    (object (members.group key)).isSound = true := by
  unfold Members.group
  split
  · rename_i inner found
    exact isSound_of_get? (isSound_object.1 sound).2 found
  · rfl

theorem nodup_group (sound : (object members).isSound = true) (key : String) :
    ((members.group key).map (·.1)).Nodup :=
  (isSound_object.1 (isSound_group sound key)).1

end Json

namespace Schema

variable {members : Json.Members} {key subject owner name : String} {issue : Issue}

theorem objectAt_fst (members : Json.Members) (key subject : String) :
    (objectAt (members.get? key) subject).1 = members.group key := by
  unfold Json.Members.group objectAt
  split <;> simp_all

theorem mem_objectAt_snd {value : Option Json} : issue ∈ (objectAt value subject).2 ↔
    ∃ v, value = some v ∧ v.IsMisplaced ∧ issue = .notAnObject subject v.kind := by
  unfold objectAt
  split
  · simp
  · simp [Json.IsMisplaced]
  · simp [Json.IsMisplaced]
  · rename_i v noNull noObject
    have wrong : v.IsMisplaced :=
      ⟨fun is => noNull (by rw [is]), fun inner is => noObject inner (by rw [is])⟩
    simp [wrong]

theorem mem_readable_snd {α ε : Type} {read : Json → Except ε α} {note : String → ε → Issue} :
    issue ∈ (readable read note members).2 ↔ ∃ name v e, (name, v) ∈ members ∧ read v = .error e ∧
    issue = note name e := by
  induction members with
  | nil => simp [readable]
  | cons m rest ih =>
    obtain ⟨name, v⟩ := m
    simp only [readable, List.mem_cons, Prod.mk.injEq]
    cases one : read v with
    | ok part =>
      rw [ih]
      constructor
      · rintro ⟨other, w, e, mem, wrong, rfl⟩
        exact ⟨other, w, e, .inr mem, wrong, rfl⟩
      · rintro ⟨other, w, e, ⟨rfl, rfl⟩ | mem, wrong, rfl⟩
        · cases (one.symm.trans wrong)
        · exact ⟨other, w, e, mem, wrong, rfl⟩
    | error e =>
      rw [List.mem_cons, ih]
      constructor
      · rintro (rfl | ⟨other, w, e', mem, wrong, rfl⟩)
        · exact ⟨name, v, e, .inl ⟨rfl, rfl⟩, one, rfl⟩
        · exact ⟨other, w, e', .inr mem, wrong, rfl⟩
      · rintro ⟨other, w, e', ⟨rfl, rfl⟩ | mem, wrong, rfl⟩
        · rw [Except.error.inj (one.symm.trans wrong)]
          exact .inl rfl
        · exact .inr ⟨other, w, e', mem, wrong, rfl⟩

/-! Fields -/

/-- A field that is no text, or whose definition is malformed. -/
inductive FieldFlaw (owner : String) (members : Json.Members) : Issue → Prop where
  | notText {name : String} {value : Json} (mem : (name, value) ∈ members)
      (wrong : ∀ text, value ≠ .string text) : FieldFlaw owner members (.fieldNotText owner name)
  | malformed {name definition : String} {e : Field.Malformed}
      (mem : (name, .string definition) ∈ members)
      (wrong : Field.parse definition = .error (.malformed e)) : FieldFlaw owner members
      (.field owner name e)

/-- No definition has digits that spell no number. -/
def AreClear (members : Json.Members) : Prop :=
  ∀ name definition, (name, .string definition) ∈ members → ¬ Field.IsUnreadable definition

/-- A field, or what is malformed in its definition, if it has one. -/
def readField : Json → Except (Option Field.Malformed) Field
  | .string definition =>
    match Field.parse definition with
    | .ok field => .ok field
    | .error (.malformed e) => .error (some e)
    | .error (.numeral _) => .error none
  | _ => .error none

def fieldNote (owner name : String) : Option Field.Malformed → Issue
  | some e => .field owner name e
  | none => .fieldNotText owner name

theorem readField_eq_ok {value : Json} {field : Field} :
    readField value = .ok field ↔ ∃ definition, value = .string definition ∧
    Field.parse definition = .ok field := by
  constructor
  · intro read
    cases value with
    | string definition =>
      refine ⟨definition, rfl, ?_⟩
      cases parsed : Field.parse definition with
      | ok other =>
        rw [readField, parsed] at read
        rw [Except.ok.inj read]
      | error e => cases e <;> simp [readField, parsed] at read
    | _ => cases read
  · rintro ⟨definition, rfl, parsed⟩
    rw [readField, parsed]

/-- Without such digits every field is read, or has its issue. -/
theorem fieldsOf_of_areClear (clear : AreClear members) :
    fieldsOf owner members = .ok (readable readField (fieldNote owner) members) := by
  induction members with
  | nil => rfl
  | cons m rest ih =>
    obtain ⟨name, value⟩ := m
    have others := ih fun name definition mem => clear name definition (List.mem_cons_of_mem _ mem)
    cases value with
    | string definition =>
      have legible := clear name definition (List.mem_cons_self ..)
      simp only [fieldsOf, readable, readField, others]
      cases parsed : Field.parse definition with
      | ok field => rfl
      | error e =>
        cases e with
        | malformed e => rfl
        | numeral e => exact absurd (Field.numeral_iff_isUnreadable.1 ⟨e, parsed⟩) legible
    | _ => simp only [fieldsOf, readable, readField, others]; rfl

theorem fieldsOf_error {definition : String} (mem : (name, .string definition) ∈ members)
    (unreadable : Field.IsUnreadable definition) : ∃ e, fieldsOf owner members = .error e := by
  induction members with
  | nil => exact absurd mem List.not_mem_nil
  | cons m rest ih =>
    obtain ⟨other, value⟩ := m
    rcases List.mem_cons.1 mem with here | mem
    · obtain ⟨-, rfl⟩ := Prod.mk.inj here
      obtain ⟨e, parsed⟩ := Field.numeral_iff_isUnreadable.2 unreadable
      exact ⟨.numeral e, by simp only [fieldsOf, parsed]⟩
    · obtain ⟨e, failed⟩ := ih mem
      unfold fieldsOf
      rw [failed]
      split
      · split
        · exact ⟨e, rfl⟩
        · exact ⟨e, rfl⟩
        · exact ⟨_, rfl⟩
      · exact ⟨e, rfl⟩

theorem exists_fieldsOf_iff : (∃ read, fieldsOf owner members = .ok read) ↔ AreClear members := by
  constructor
  · rintro ⟨read, isRead⟩ name definition mem unreadable
    obtain ⟨e, failed⟩ := @fieldsOf_error members owner name definition mem unreadable
    cases (isRead.symm.trans failed)
  · exact fun clear => ⟨_, fieldsOf_of_areClear clear⟩

/-- What is noted of fields is what is wrong with them. -/
theorem mem_fieldsOf_snd {fields : List (String × Field)} {issues : List Issue}
    (h : fieldsOf owner members = .ok (fields, issues)) :
    issue ∈ issues ↔ FieldFlaw owner members issue := by
  have clear := exists_fieldsOf_iff.1 ⟨_, h⟩
  obtain ⟨-, rfl⟩ := Prod.mk.inj (Except.ok.inj ((fieldsOf_of_areClear clear).symm.trans h))
  rw [mem_readable_snd]
  constructor
  · rintro ⟨name, value, e, mem, wrong, rfl⟩
    cases value with
    | string definition =>
      cases parsed : Field.parse definition with
      | ok field =>
        rw [readField, parsed] at wrong
        cases wrong
      | error fault =>
        cases fault with
        | malformed malformed =>
          rw [readField, parsed] at wrong
          obtain rfl := Except.error.inj wrong
          exact .malformed mem parsed
        | numeral digits =>
          exact absurd (Field.numeral_iff_isUnreadable.1 ⟨digits, parsed⟩)
            (clear name definition mem)
    | _ =>
      obtain rfl := Except.error.inj wrong
      exact .notText mem (by simp)
  · intro flaw
    cases flaw with
    | @notText name value mem wrong =>
      refine ⟨name, value, none, mem, ?_, rfl⟩
      cases value with
      | string text => exact absurd rfl (wrong text)
      | _ => rfl
    | @malformed name definition e mem wrong =>
      exact ⟨name, _, some e, mem, by rw [readField, wrong], rfl⟩

/-- What is found among the fields is what the definition under that name gives. -/
theorem get?_fieldsOf {fields : List (String × Field)} {issues : List Issue}
    (nodup : (members.map (·.1)).Nodup) (h : fieldsOf owner members = .ok (fields, issues))
    {field : Field} : (OrderedMap.ofList fields).get? name = some field ↔
      ∃ definition, members.get? name = some (.string definition) ∧
      Field.parse definition = .ok field := by
  have clear := exists_fieldsOf_iff.1 ⟨_, h⟩
  obtain ⟨rfl, -⟩ := Prod.mk.inj (Except.ok.inj ((fieldsOf_of_areClear clear).symm.trans h))
  rw [get?_readable nodup, Option.bind_eq_some_iff]
  have ok (v : Json) : (readField v).toOption = some field ↔ readField v = .ok field := by
    cases readField v <;> simp [Except.toOption]
  simp only [ok, readField_eq_ok]
  constructor
  · rintro ⟨v, found, definition, rfl, parsed⟩
    exact ⟨definition, found, parsed⟩
  · rintro ⟨definition, found, parsed⟩
    exact ⟨_, found, definition, rfl, parsed⟩

end Schema

namespace Entity

/-- The groups of an entity's block. -/
def groupKeys : List String :=
  ["fields", "relations", "scopes", "policies", "hooks", "observers", "filters", "cache"]

/-- A value that is no factory: a number below zero, or none, where the count of one is expected, or
something other than an object or a truth value. -/
def IsNoFactory (value : Json) : Prop :=
  value ≠ .null ∧ (∀ flag, value ≠ .bool flag) ∧
    ∀ (members : Json.Members) (count : Int), value = .object members →
      Schema.countOf (members.get? "count") = .ok (some count) → count < 0

/-- What can be wrong in the block of an entity, with the issue that stands for it. -/
inductive Flaw (name : String) (config : Json.Members) : Issue → Prop where
  | group {key : String} {value : Json} (among : key ∈ groupKeys)
      (found : config.get? key = some value)
      (wrong : value.IsMisplaced) : Flaw name config (.notAnObject (name ++ "." ++ key) value.kind)
  | field {issue : Issue}
      (wrong : Schema.FieldFlaw name (config.group "fields") issue) : Flaw name config issue
  | relation {relation : String} {value : Json} {e : Relation.Malformed}
      (mem : (relation, value) ∈ config.group "relations")
      (wrong : Relation.ofJson value = .error e) : Flaw name config (.relation name relation e)
  | routes {value : Json} (found : config.get? "routes" = some value)
      (wrong : value.IsNoList) : Flaw name config (.routes name)
  | policy {action : String} {value : Json} {e : Rule.Malformed}
      (mem : (action, value) ∈ config.group "policies")
      (wrong : Rule.ofJson value = .error e) : Flaw name config (.policy name action e)
  | action {group stage : String} {value : Json} {e : Action.Malformed}
      (among : group ∈ ["hooks", "observers"]) (mem : (stage, value) ∈ config.group group)
      (wrong : Action.listOfJson value = .error e) :
      Flaw name config (.action name group stage e)
  | listing {value : Json} (found : (config.group "filters").get? "index" = some value)
      (wrong : value.IsMisplaced) :
      Flaw name config (.notAnObject (name ++ ".filters.index") value.kind)
  | conditions {value : Json}
      (found : ((config.group "filters").group "index").get? "where" = some value)
      (wrong : value.IsMisplaced) :
      Flaw name config (.notAnObject (name ++ ".filters.index.where") value.kind)
  | factory {value : Json} (found : config.get? "factory" = some value)
      (wrong : IsNoFactory value) : Flaw name config (.factory name)

end Entity

namespace Schema

variable {name : String} {config : Json.Members} {issue : Issue}

theorem mem_routesOf_snd {value : Option Json} :
    issue ∈ (routesOf name value).2 ↔ ∃ v, value = some v ∧ v.IsNoList ∧ issue = .routes name := by
  unfold routesOf
  split
  · simp
  · simp [Json.IsNoList]
  · simp [Json.IsNoList]
  · rename_i v noNull noList
    have wrong : v.IsNoList :=
      ⟨fun is => noNull (by rw [is]), fun items is => noList items (by rw [is])⟩
    simp [wrong]

theorem mem_filterOf_snd {filters : Json.Members} : issue ∈ (filterOf name filters).2 ↔
    (∃ v, filters.get? "index" = some v ∧ v.IsMisplaced ∧
      issue = .notAnObject (name ++ ".filters.index") v.kind) ∨
      ∃ v, (filters.group "index").get? "where" = some v ∧ v.IsMisplaced ∧
        issue = .notAnObject (name ++ ".filters.index.where") v.kind := by
  have index := objectAt_fst filters "index" (name ++ ".filters.index")
  have indexIssues := @mem_objectAt_snd (name ++ ".filters.index") issue (filters.get? "index")
  unfold filterOf
  dsimp only
  rw [index]
  by_cases empty : (filters.group "index").isEmpty = true
  · have absent : (filters.group "index").get? "where" = none := by
      rw [List.isEmpty_iff.1 empty]
      rfl
    rw [if_pos empty, indexIssues, absent]
    simp
  · rw [if_neg empty, List.mem_append, indexIssues, mem_objectAt_snd]

theorem mem_factoryOf_snd {value : Option Json} {factory : Option Factory} {issues : List Issue}
    (h : factoryOf name value = .ok (factory, issues)) :
    issue ∈ issues ↔ ∃ v, value = some v ∧ Entity.IsNoFactory v ∧ issue = .factory name := by
  have isObject (members : Json.Members) : Entity.IsNoFactory (.object members) ↔
      ∀ count, countOf (members.get? "count") = .ok (some count) → count < 0 := by
    constructor
    · exact fun wrong count => wrong.2.2 members count rfl
    · intro negative
      refine ⟨by simp, by simp, ?_⟩
      intro others count is
      rw [← Json.object.inj is]
      exact negative count
  unfold factoryOf at h
  split at h
  · obtain ⟨-, rfl⟩ := Prod.mk.inj (Except.ok.inj h)
    simp
  · obtain ⟨-, rfl⟩ := Prod.mk.inj (Except.ok.inj h)
    simp [Entity.IsNoFactory]
  · obtain ⟨-, rfl⟩ := Prod.mk.inj (Except.ok.inj h)
    simp [Entity.IsNoFactory]
  · obtain ⟨-, rfl⟩ := Prod.mk.inj (Except.ok.inj h)
    simp [Entity.IsNoFactory]
  · rename_i members
    obtain ⟨count, isCount, made⟩ := map_eq_ok.1 h
    have only :
        (∃ v, some (Json.object members) = some v ∧ Entity.IsNoFactory v ∧ issue = .factory name) ↔
        (∀ count', countOf (Json.Members.get? members "count") = .ok (some count') → count' < 0) ∧
        issue = .factory name := by
      rw [← isObject]
      simp
    rw [only, isCount]
    cases count with
    | none =>
      obtain ⟨-, rfl⟩ := Prod.mk.inj made
      simp
    | some count =>
      dsimp only at made
      split at made
      · rename_i negative
        obtain ⟨-, rfl⟩ := Prod.mk.inj made
        simp [negative]
      · rename_i natural
        obtain ⟨-, rfl⟩ := Prod.mk.inj made
        simpa using fun negative => absurd negative natural
  · rename_i v noNull noFalse noTrue noObject
    obtain ⟨-, rfl⟩ := Prod.mk.inj (Except.ok.inj h)
    have wrong : Entity.IsNoFactory v := by
      refine ⟨fun is => noNull (by rw [is]), fun flag is => ?_, fun members count is =>
        (noObject members is).elim⟩
      cases flag with
      | false => exact noFalse (by rw [is])
      | true => exact noTrue (by rw [is])
    simp [wrong]

theorem mem_actionsOf_snd {group : String} : issue ∈ (actionsOf name group config).2 ↔
    (∃ v, config.get? group = some v ∧ v.IsMisplaced ∧
      issue = .notAnObject (name ++ "." ++ group) v.kind) ∨
      ∃ stage v e, (stage, v) ∈ config.group group ∧ Action.listOfJson v = .error e ∧
      issue = .action name group stage e := by
  unfold actionsOf
  dsimp only
  rw [List.mem_append, mem_objectAt_snd, mem_readable_snd, objectAt_fst]

theorem append_dotted {key dotted : String} (h : dotted = "." ++ key) (name : String) :
    name ++ dotted = name ++ "." ++ key := by
  rw [h, String.append_assoc]

/-- The issues of an entity are what is wrong in its block. -/
theorem mem_issues_of_entityOf {e : { e : Entity // e.name = name }}
    (h : entityOf name config = .ok e) : issue ∈ e.1.issues ↔ Entity.Flaw name config issue := by
  unfold entityOf at h
  simp only [bind_eq_ok] at h
  obtain ⟨⟨fields, fieldIssues⟩, fieldsRead, ⟨factory, factoryIssues⟩, factoryRead, h⟩ := h
  split at h
  · cases h
  · obtain rfl := Except.ok.inj h
    rw [objectAt_fst] at fieldsRead
    have fieldsDot := @append_dotted "fields" ".fields" (by decide)
    have relationsDot := @append_dotted "relations" ".relations" (by decide)
    have scopesDot := @append_dotted "scopes" ".scopes" (by decide)
    have policiesDot := @append_dotted "policies" ".policies" (by decide)
    have filtersDot := @append_dotted "filters" ".filters" (by decide)
    have cacheDot := @append_dotted "cache" ".cache" (by decide)
    simp only [List.mem_append, mem_fieldsOf_snd fieldsRead, mem_factoryOf_snd factoryRead,
      mem_objectAt_snd, mem_readable_snd, mem_routesOf_snd, mem_filterOf_snd, mem_actionsOf_snd,
      objectAt_fst, fieldsDot, relationsDot, scopesDot, policiesDot,
      filtersDot, cacheDot, or_assoc]
    have misplaced {key : String}
        (among : key ∈ Entity.groupKeys) : (∃ v, config.get? key = some v ∧ v.IsMisplaced ∧
          issue = .notAnObject (name ++ "." ++ key) v.kind) → Entity.Flaw name config issue := by
      rintro ⟨v, found, wrong, rfl⟩
      exact .group among found wrong
    have acted {group : String}
        (among : group ∈ ["hooks", "observers"]) : (∃ stage v e, (stage, v) ∈ config.group group ∧
          Action.listOfJson v = .error e ∧ issue = .action name group stage e) →
        Entity.Flaw name config issue := by
      rintro ⟨stage, v, e, mem, wrong, rfl⟩
      exact .action among mem wrong
    constructor
    · rintro (is | is | is | ⟨relation, v, e, mem, wrong, rfl⟩ | ⟨v, found, wrong,
        rfl⟩ | is | is | ⟨action, v, e, mem, wrong, rfl⟩ |
        is | is | is | is | is | ⟨v, found, wrong, rfl⟩ | ⟨v, found, wrong, rfl⟩ | ⟨v, found,
          wrong, rfl⟩ | is)
      · exact misplaced (by decide) is
      · exact .field is
      · exact misplaced (by decide) is
      · exact .relation mem wrong
      · exact .routes found wrong
      · exact misplaced (by decide) is
      · exact misplaced (by decide) is
      · exact .policy mem wrong
      · exact misplaced (by decide) is
      · exact acted (by decide) is
      · exact misplaced (by decide) is
      · exact acted (by decide) is
      · exact misplaced (by decide) is
      · exact .listing found wrong
      · exact .conditions found wrong
      · exact .factory found wrong
      · exact misplaced (by decide) is
    · intro flaw
      cases flaw with
      | @group key value among found wrong =>
        have here : ∃ v, config.get? key = some v ∧ v.IsMisplaced ∧
            Issue.notAnObject (name ++ "." ++ key) value.kind =
            .notAnObject (name ++ "." ++ key) v.kind := ⟨value, found, wrong, rfl⟩
        simp only [Entity.groupKeys, List.mem_cons, List.not_mem_nil, or_false] at among
        rcases among with rfl | rfl | rfl | rfl | rfl | rfl | rfl | rfl <;>
          simp only [here, true_or, or_true]
      | field is => exact .inr (.inl is)
      | relation mem wrong => exact .inr (.inr (.inr (.inl ⟨_, _, _, mem, wrong, rfl⟩)))
      | routes found wrong => exact .inr (.inr (.inr (.inr (.inl ⟨_, found, wrong, rfl⟩))))
      | policy mem wrong =>
        exact .inr (.inr (.inr (.inr (.inr (.inr (.inr (.inl ⟨_, _, _, mem, wrong, rfl⟩)))))))
      | @action group stage value e among mem wrong =>
        have here : ∃ n v e', (n, v) ∈ config.group group ∧ Action.listOfJson v = .error e' ∧
            Issue.action name group stage e = .action name group n e' :=
              ⟨stage, value, e, mem, wrong, rfl⟩
        simp only [List.mem_cons, List.not_mem_nil, or_false] at among
        rcases among with rfl | rfl <;> simp only [here, true_or, or_true]
      | listing found wrong =>
        simp only [found, Option.some.injEq, exists_eq_left', wrong, true_and, true_or, or_true]
      | conditions found wrong =>
        simp only [found, Option.some.injEq, exists_eq_left', wrong, true_and, true_or, or_true]
      | factory found wrong =>
        simp only [found, Option.some.injEq, exists_eq_left', wrong, true_and, true_or, or_true]

end Schema

namespace Pivot

/-- What can be wrong in the block of a pivot table, with the issue that stands for it. -/
inductive Flaw (name : String) (config : Json.Members) : Issue → Prop where
  | group {value : Json} (found : config.get? "fields" = some value) (wrong : value.IsMisplaced) :
      Flaw name config (.notAnObject (name ++ ".fields") value.kind)
  | field {issue : Issue}
      (wrong : Schema.FieldFlaw name (config.group "fields") issue) : Flaw name config issue

end Pivot

namespace Schema

variable {name : String} {config : Json.Members} {issue : Issue}

/-- The issues of a pivot table are what is wrong in its block. -/
theorem mem_issues_of_pivotOf {p : { p : Pivot // p.name = name }}
    (h : pivotOf name config = .ok p) : issue ∈ p.1.issues ↔ Pivot.Flaw name config issue := by
  simp only [pivotOf, bind_eq_ok] at h
  obtain ⟨⟨fields, fieldIssues⟩, read, made⟩ := h
  obtain rfl := Except.ok.inj made
  rw [objectAt_fst] at read
  rw [List.mem_append, mem_objectAt_snd, mem_fieldsOf_snd read]
  constructor
  · rintro (⟨v, found, wrong, rfl⟩ | wrong)
    · exact .group found wrong
    · exact .field wrong
  · intro flaw
    cases flaw with
    | group found wrong => exact .inl ⟨_, found, wrong, rfl⟩
    | field wrong => exact .inr wrong

/-! Whole documents -/

/-- A member of a group of blocks that is none: no object, or one whose name is blank. -/
def IsNoBlock (name : String) (value : Json) : Prop :=
  Text.isBlankText name = true ∨ ∀ config, value ≠ .object config

/-- The groups of the settings. -/
def settingKeys : List String := ["auth", "app", "database", "mail", "cache", "queues", "cors"]

/-- What can be wrong in a document outside its blocks, with the issue that stands for it. -/
inductive Flaw (document : Json.Members) : Issue → Prop where
  | group {key : String} {value : Json} (among : key ∈ ["meta", "models", "pivots", "custom"])
      (found : document.get? key = some value)
      (wrong : value.IsMisplaced) : Flaw document (.notAnObject key value.kind)
  | setting {key : String} {value : Json} (among : key ∈ settingKeys)
      (found : (document.group "meta").get? key = some value)
      (wrong : value.IsMisplaced) : Flaw document (.notAnObject ("meta." ++ key) value.kind)
  | model {name : String} {value : Json} (mem : (name, value) ∈ document.group "models")
      (wrong : IsNoBlock name value) : Flaw document (.model name)
  | pivot {name : String} {value : Json} (mem : (name, value) ∈ document.group "pivots")
      (wrong : IsNoBlock name value) : Flaw document (.pivot name)
  | customRoutes {value : Json} (found : (document.group "custom").get? "routes" = some value)
      (wrong : value.IsNoList) : Flaw document .customRoutes
  | routeKind {items : List Json} {index : Nat} {item : Json}
      (found : (document.group "custom").get? "routes" = some (.array items))
      (here : items[index]? = some item)
      (wrong : ∀ members, item ≠ .object members) : Flaw document (.customRouteKind index)
  | routeParts {items : List Json} {index : Nat} {members : Json.Members}
      (found : (document.group "custom").get? "routes" = some (.array items))
      (here : items[index]? = some (.object members))
      (wrong : textAt (members.get? "uri") "" = "" ∨ textAt (members.get? "controller") "" = "") :
      Flaw document (.customRouteParts index)

section Blocks

variable {α : Type} {nameOf : α → String}
  {make : (name : String) → Json.Members → Except BuildError { a : α // nameOf a = name }}
  {note : String → Issue} {members : Json.Members} {blocks : List (Named nameOf)}
  {issues : List Issue}

/-- What is noted of blocks are the members that are none. -/
theorem mem_blocksOf_snd (h : blocksOf make note members = .ok (blocks, issues)) :
    issue ∈ issues ↔ ∃ name value, (name, value) ∈ members ∧ IsNoBlock name value ∧
    issue = note name := by
  induction members generalizing blocks issues with
  | nil =>
    obtain ⟨-, rfl⟩ := Prod.mk.inj (Except.ok.inj h)
    simp
  | cons m rest ih =>
    obtain ⟨name, value⟩ := m
    unfold blocksOf at h
    split at h
    · rename_i config named
      simp only [bind_eq_ok] at h
      obtain ⟨b, -, ⟨others, issues'⟩, read, made⟩ := h
      obtain ⟨-, rfl⟩ := Prod.mk.inj (Except.ok.inj made)
      rw [ih read]
      constructor
      · rintro ⟨other, v, mem, wrong, rfl⟩
        exact ⟨other, v, List.mem_cons_of_mem _ mem, wrong, rfl⟩
      · rintro ⟨other, v, mem, wrong, rfl⟩
        rcases List.mem_cons.1 mem with here | mem
        · obtain ⟨rfl, rfl⟩ := Prod.mk.inj here
          rcases wrong with blank | noObject
          · cases (named.symm.trans blank)
          · exact absurd rfl (noObject config)
        · exact ⟨other, v, mem, wrong, rfl⟩
    · rename_i value _ _ noBlock
      obtain ⟨⟨others, issues'⟩, read, made⟩ := map_eq_ok.1 h
      obtain ⟨-, rfl⟩ := Prod.mk.inj made
      have wrong : IsNoBlock name value := by
        cases blank : Text.isBlankText name with
        | true => exact .inl blank
        | false => exact .inr fun config is => noBlock config is blank
      rw [List.mem_cons, ih read]
      constructor
      · rintro (rfl | ⟨other, v, mem, wrong, rfl⟩)
        · exact ⟨name, value, List.mem_cons_self .., wrong, rfl⟩
        · exact ⟨other, v, List.mem_cons_of_mem _ mem, wrong, rfl⟩
      · rintro ⟨other, v, mem, wrong, rfl⟩
        rcases List.mem_cons.1 mem with here | mem
        · exact .inl (by rw [(Prod.mk.inj here).1])
        · exact .inr ⟨other, v, mem, wrong, rfl⟩

end Blocks

theorem mem_settingsOf_snd {document : Json.Members} :
    issue ∈ (settingsOf (document.get? "meta")).2 ↔
    (∃ v, document.get? "meta" = some v ∧ v.IsMisplaced ∧ issue = .notAnObject "meta" v.kind) ∨
      ∃ key ∈ settingKeys, ∃ v, (document.group "meta").get? key = some v ∧ v.IsMisplaced ∧
        issue = .notAnObject ("meta." ++ key) v.kind := by
  have noMember (key : String) (empty : document.group "meta" = []) :
      (document.group "meta").get? key = none := by
    rw [empty, Json.get?_nil]
  unfold settingsOf
  split
  · rename_i absent
    have empty : document.group "meta" = [] := Json.group_of_ne (by simp [absent])
    simp [absent, noMember _ empty]
  · rename_i void
    have empty : document.group "meta" = [] := Json.group_of_ne (by simp [void])
    simp [void, noMember _ empty, Json.IsMisplaced]
  · rename_i members is
    have dotted : ("meta." ++ "auth" = "meta.auth") := by decide
    simp only [is, Json.group_of_get? is, List.mem_append, mem_objectAt_snd, settingKeys,
      List.exists_mem_cons_iff, List.not_mem_nil, false_and, exists_false, or_false,
      or_assoc, dotted]
    simp [Json.IsMisplaced]
  · rename_i v noNull noObject is
    have empty : document.group "meta" = [] := Json.group_of_ne fun inner => by
      rw [is]
      exact fun same => noObject inner (Option.some.inj same)
    have wrong : v.IsMisplaced :=
      ⟨fun is => noNull (by rw [is]), fun inner is => noObject inner (by rw [is])⟩
    simp [is, noMember _ empty, wrong]

theorem customRouteOf_eq_error {index : Nat} {item : Json} :
    customRouteOf index item = .error issue ↔ (∀ members, item ≠ .object members) ∧
    issue = .customRouteKind index ∨
      ∃ members : Json.Members, item = .object members ∧
        (textAt (members.get? "uri") "" = "" ∨ textAt (members.get? "controller") "" = "") ∧
        issue = .customRouteParts index := by
  unfold customRouteOf
  split
  · rename_i members
    simp only [Bool.or_eq_true, String.isEmpty_iff]
    split
    · rename_i missing
      simp [missing, @eq_comm _ issue]
    · rename_i present
      simp [present]
  · rename_i noObject
    have noRoute (members : Json.Members) : item ≠ .object members := fun is => noObject members is
    simp [noRoute, @eq_comm _ issue]

theorem mem_customRoutesFrom_snd {items : List Json} {start : Nat} :
    issue ∈ (customRoutesFrom start items).2 ↔ ∃ (index : Nat)
    (item : Json), items[index]? = some item ∧
    customRouteOf (start + index) item = .error issue := by
  induction items generalizing start with
  | nil => simp [customRoutesFrom]
  | cons first rest ih =>
    have onward : (∃ (index : Nat) (item : Json), (first :: rest)[index]? = some item ∧
        customRouteOf (start + index) item = .error issue) ↔
        customRouteOf start first = .error issue ∨
          issue ∈ (customRoutesFrom (start + 1) rest).2 := by
      rw [ih]
      constructor
      · rintro ⟨_ | index, item, here, wrong⟩
        · obtain rfl := Option.some.inj here
          exact .inl wrong
        · exact .inr ⟨index, item, here, by rwa [Nat.add_assoc, Nat.add_comm 1]⟩
      · rintro (wrong | ⟨index, item, here, wrong⟩)
        · exact ⟨0, first, rfl, wrong⟩
        · exact ⟨index + 1, item, here, by rwa [Nat.add_assoc, Nat.add_comm 1] at wrong⟩
    rw [onward]
    simp only [customRoutesFrom]
    cases customRouteOf start first with
    | ok route => simp
    | error wrong => simp [@eq_comm _ issue]

theorem mem_customRoutesOf_snd {value : Option Json} : issue ∈ (customRoutesOf value).2 ↔
    (∃ v, value = some v ∧ v.IsNoList ∧ issue = .customRoutes) ∨ ∃ (items : List Json) (index : Nat)
    (item : Json),
      value = some (.array items) ∧ items[index]? = some item ∧
      customRouteOf index item = .error issue := by
  unfold customRoutesOf
  split
  · simp
  · simp [Json.IsNoList]
  · rename_i items
    rw [mem_customRoutesFrom_snd]
    simp [Json.IsNoList]
  · rename_i v noNull noList
    have wrong : v.IsNoList :=
      ⟨fun is => noNull (by rw [is]), fun items is => noList items (by rw [is])⟩
    have noArray (items : List Json) : v ≠ .array items := fun is => noList items (by rw [is])
    simp [wrong, noArray]

/-- The issues of a schema are what is wrong in its document outside the blocks. -/
theorem mem_issues_of_build {document : Json.Members} {s : Schema} (h : build document = .ok s) :
    issue ∈ s.issues ↔ Flaw document issue := by
  unfold build at h
  simp only [bind_eq_ok] at h
  obtain ⟨⟨entities, entityIssues⟩, entitiesRead, ⟨pivots, pivotIssues⟩, pivotsRead, made⟩ := h
  obtain rfl := Except.ok.inj made
  rw [objectAt_fst] at entitiesRead pivotsRead
  simp only [List.mem_append, mem_settingsOf_snd, mem_objectAt_snd, mem_blocksOf_snd entitiesRead,
    mem_blocksOf_snd pivotsRead, mem_customRoutesOf_snd, objectAt_fst, or_assoc]
  constructor
  · rintro (⟨v, found, wrong, rfl⟩ | ⟨key, among, v, found, wrong, rfl⟩ | ⟨v, found, wrong,
      rfl⟩ | ⟨name, v, mem, wrong, rfl⟩ | ⟨v, found, wrong, rfl⟩ | ⟨name, v, mem, wrong, rfl⟩ | ⟨v,
        found, wrong, rfl⟩ | ⟨v, found, wrong, rfl⟩ |
      ⟨items, index, item, found, here, wrong⟩)
    · exact .group (by decide) found wrong
    · exact .setting among found wrong
    · exact .group (by decide) found wrong
    · exact .model mem wrong
    · exact .group (by decide) found wrong
    · exact .pivot mem wrong
    · exact .group (by decide) found wrong
    · exact .customRoutes found wrong
    · rcases customRouteOf_eq_error.1 wrong with ⟨noObject, rfl⟩ | ⟨members, rfl, parts, rfl⟩
      · exact .routeKind found here noObject
      · exact .routeParts found here parts
  · intro flaw
    cases flaw with
    | @group key value among found wrong =>
      have here : ∃ v, document.get? key = some v ∧ v.IsMisplaced ∧
        Issue.notAnObject key value.kind = .notAnObject key v.kind :=
        ⟨value, found, wrong, rfl⟩
      simp only [List.mem_cons, List.not_mem_nil, or_false] at among
      rcases among with rfl | rfl | rfl | rfl <;> simp only [here, true_or, or_true]
    | setting among found wrong => exact .inr (.inl ⟨_, among, _, found, wrong, rfl⟩)
    | model mem wrong => exact .inr (.inr (.inr (.inl ⟨_, _, mem, wrong, rfl⟩)))
    | pivot mem wrong => exact .inr (.inr (.inr (.inr (.inr (.inl ⟨_, _, mem, wrong, rfl⟩)))))
    | customRoutes found wrong =>
      exact .inr (.inr (.inr (.inr (.inr (.inr (.inr (.inl ⟨_, found, wrong, rfl⟩)))))))
    | routeKind found here wrong =>
      refine .inr (.inr (.inr (.inr (.inr (.inr (.inr (.inr ⟨_, _, _, found, here, ?_⟩)))))))
      exact customRouteOf_eq_error.2 (.inl ⟨wrong, rfl⟩)
    | routeParts found here wrong =>
      refine .inr (.inr (.inr (.inr (.inr (.inr (.inr (.inr ⟨_, _, _, found, here, ?_⟩)))))))
      exact customRouteOf_eq_error.2 (.inr ⟨_, rfl, wrong, rfl⟩)

end Schema
end Scaffold
