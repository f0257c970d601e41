import Scaffold.Proofs.Generation.PlainNames
import Scaffold.Proofs.Schema.Documents
import Scaffold.Proofs.Text.Trimming

/-!
# What documents that are alike require

Which files a schema requires does not hang on the order of members anywhere in its document, but
for one thing: where an object stands for the name of a table, its text is the name. So documents
that are alike require the same files once the tables have the same names
(`Schema.requiredArtifacts_of_tables`), and they do where names are plain
(`Schema.requiredArtifacts_of_plain`).
-/

namespace Scaffold
set_option autoImplicit false

open Json (Shape AlikeAs MembersAlike)

theorem Text.head?_strip {text : String} {c : Char} (first : text.toList.head? = some c)
    (stays : Text.isBlank c = false) : (Text.strip text).toList.head? = some c := by
  obtain ⟨rest, chars⟩ := List.head?_eq_some_iff.1 first
  have alone : Chars.IsTrimmed Text.isBlank [c] := ⟨by simp [stays], by simp [stays]⟩
  obtain ⟨tail, whole⟩ := alone.prefix_trim (List.cons_ne_nil c []) rest
  rw [Text.strip, String.toList_ofList, chars, ← List.singleton_append, ← whole]
  rfl

namespace Json

/-- The text of a list or an object opens with a bracket or a brace. -/
theorem head?_plain {v : Json} (compound : v.isScalar = false) :
    ∃ c ∈ ['[', '\x7b'], v.plain.toList.head? = some c := by
  cases v with
  | array items =>
    refine ⟨'[', by simp, ?_⟩
    rw [plain, shown, String.toList_append, String.toList_append]
    · rfl
    · exact nofun
  | object members =>
    refine ⟨'\x7b', by simp, ?_⟩
    rw [plain, shown, String.toList_append, String.toList_append]
    · rfl
    · exact nofun
  | _ => exact absurd compound.symm Bool.false_ne_true

variable {shape : Shape} {a b : Json}

/-- Values that are alike are one scalar, or both are compound. -/
theorem AlikeAs.eq_or_compound (h : AlikeAs shape a b) :
    a = b ∨ a.isScalar = false ∧ b.isScalar = false := by
  rcases h.cases with ⟨same, -⟩ | ⟨_, _, rfl, rfl, -⟩ | ⟨_, _, rfl, rfl, -⟩
  · exact .inl same
  · exact .inr ⟨rfl, rfl⟩
  · exact .inr ⟨rfl, rfl⟩

end Json

namespace RouteAction

/-- A word that does not begin as one of the words for routes names none. -/
theorem ofWord?_of_head? {word : String} {c : Char} (mem : c ∈ ['[', '\x7b'])
    (first : word.toList.head? = some c) : ofWord? word = none := by
  have words : ∀ word ∈ ["list", "index", "show", "create", "store", "update", "delete", "destroy"],
      ∀ c ∈ ['[', '\x7b'], word.toList.head? ≠ some c := by decide
  have apart := fun isWord => words word isWord c mem first
  unfold ofWord?
  split <;> first
    | rfl
    | exact absurd (by simp) apart

theorem ofWord?_alike {shape : Shape} {a b : Json} (h : AlikeAs shape a b) :
    ofWord? (Text.strip a.plain) = ofWord? (Text.strip b.plain) := by
  have nothing {v : Json} (compound : v.isScalar = false) :
      ofWord? (Text.strip v.plain) = none := by
    obtain ⟨c, mem, first⟩ := Json.head?_plain compound
    have stays : ∀ c ∈ ['[', '\x7b'], Text.isBlank c = false := by decide
    exact ofWord?_of_head? mem (Text.head?_strip first (stays c mem))
  rcases h.eq_or_compound with rfl | ⟨left, right⟩
  · rfl
  · rw [nothing left, nothing right]

end RouteAction

namespace Action

variable {shape : Shape} {a b : Json}

/-- An action can be read of both values or of neither. -/
theorem ofItem_eq_none_alike (h : AlikeAs shape a b) :
    (ofItem a).toOption = none ↔ (ofItem b).toOption = none := by
  rcases h.cases with ⟨rfl, -⟩ | ⟨items, others, rfl, rfl, -⟩ | ⟨members, others, rfl, rfl, alike⟩
  · rfl
  · rfl
  · have named {v w : Option Json} (rel : Option.Rel (AlikeAs (shape.inside "action")) v w) :
        (Text.strip ((v.map Json.plain).getD "")).isEmpty =
          (Text.strip ((w.map Json.plain).getD "")).isEmpty := by
      have filled {v : Json} (compound : v.isScalar = false) :
          (Text.strip v.plain).isEmpty = false := by
        obtain ⟨c, mem, first⟩ := Json.head?_plain compound
        have stays : ∀ c ∈ ['[', '\x7b'], Text.isBlank c = false := by decide
        have head := Text.head?_strip first (stays c mem)
        rw [Bool.eq_false_iff, ne_eq, String.isEmpty_iff]
        intro absent
        rw [absent] at head
        cases head
      cases rel with
      | none => rfl
      | some like =>
        rcases like.eq_or_compound with rfl | ⟨left, right⟩
        · rfl
        · rw [Option.map_some, Option.map_some, Option.getD_some, Option.getD_some,
            filled left, filled right]
    have read (members : Json.Members) : (ofItem (.object members)).toOption = none ↔
        (Text.strip (((members.get? "action").map Json.plain).getD "")).isEmpty = true := by
      rw [ofItem]
      split
      · rename_i absent
        exact iff_of_true rfl absent
      · rename_i filled
        refine iff_of_false ?_ filled
        split <;> simp [Except.toOption]
    rw [read, read, named (alike.get? "action")]

theorem listOfJson_eq_none_alike (h : AlikeAs shape a b) :
    (listOfJson a).toOption = none ↔ (listOfJson b).toOption = none := by
  have one (members : Json.Members) :
      (listOfJson (.object members)).toOption = none ↔
      (ofItem (.object members)).toOption = none := by
    rw [listOfJson]
    · cases ofItem (.object members) <;> simp [Except.map, Except.toOption]
    · intro items eq
      cases eq
  rcases h.cases with ⟨rfl, -⟩ | ⟨items, others, rfl, rfl, all⟩ | ⟨members, others, rfl, rfl, -⟩
  · rfl
  · exact mapM_eq_none (all.imp fun _ _ => ofItem_eq_none_alike)
  · rw [one, one, ofItem_eq_none_alike h]

end Action

namespace Schema

variable {shape : Shape} {v w : Option Json}

/-- Whether any part can be read. -/
theorem isEmpty_readable_alike {α ε : Type} {read : Json → Except ε α} {issue : String → ε → Issue}
    {members others : Json.Members} (alike : MembersAlike shape members others)
    (each : ∀ key v w, AlikeAs (shape.inside key) v w →
      ((read v).toOption = none ↔ (read w).toOption = none)) :
    (OrderedMap.ofList (readable read issue members).1).isEmpty =
      (OrderedMap.ofList (readable read issue others).1).isEmpty := by
  rw [Bool.eq_iff_iff, OrderedMap.isEmpty_iff, OrderedMap.isEmpty_iff]
  refine forall_congr' fun key => ?_
  rw [get?_readable alike.nodup, get?_readable alike.nodup']
  have like := alike.get? key
  revert like
  generalize Json.Members.get? _ key = v
  generalize Json.Members.get? _ key = w
  intro like
  cases like with
  | none => rfl
  | some like => exact each key _ _ like

theorem routesOf_alike (h : Option.Rel (AlikeAs shape) v w) (entity : String) :
    (routesOf entity v).1.1 = (routesOf entity w).1.1 := by
  cases h with
  | none => rfl
  | some like =>
    rcases like.cases with ⟨rfl, -⟩ | ⟨items, others, rfl, rfl, all⟩ | ⟨members,
      others, rfl, rfl, -⟩
    · rfl
    · refine congrArg List.eraseDups ?_
      rw [List.filterMap_map, List.filterMap_map]
      clear like
      induction all with
      | nil => rfl
      | cons like _ ih =>
        have one := RouteAction.ofWord?_alike like
        simp only [List.filterMap_cons, Function.comp, one] at ih ⊢
        rw [ih]
    · rfl

/-- Whether there is a factory. -/
theorem isSome_factoryOf_alike (h : Option.Rel (AlikeAs shape) v w) (entity : String) :
    (factoryOf entity v).map (·.1.isSome) = (factoryOf entity w).map (·.1.isSome) := by
  cases h with
  | none => rfl
  | some like =>
    rcases like.cases with ⟨rfl, -⟩ | ⟨items, others, rfl, rfl, -⟩ | ⟨members, others,
      rfl, rfl, alike⟩
    · rfl
    · rfl
    · simp only [factoryOf, countOf_alike (alike.get? "count")]
      cases countOf (Json.Members.get? others "count") with
      | error e => rfl
      | ok count =>
        cases count with
        | none => rfl
        | some count =>
          simp only [Except.map]
          split <;> rfl

end Schema

namespace Entity

open Schema

variable {shape : Shape} {name : String} {config config' : Json.Members}
  {e e' : { e : Entity // e.name = name }}

/-- Blocks that are alike require the same files, if their tables have one name. -/
theorem required_of_alike (h : entityOf name config = .ok e) (h' : entityOf name config' = .ok e')
    (alike : MembersAlike shape config config') (table : e.1.table = e'.1.table) :
    Artifact.ofEntity e.1 = Artifact.ofEntity e'.1 := by
  obtain ⟨e, named⟩ := e
  obtain ⟨e', named'⟩ := e'
  have built := isFrom_of_entityOf h
  have built' := isFrom_of_entityOf h'
  dsimp only at built built' table ⊢
  have same : e.name = e'.name := named.trans named'.symm
  have routes : e.hasRoutes = e'.hasRoutes := by
    rw [hasRoutes, hasRoutes, built.routes, built'.routes, same,
      routesOf_alike (alike.get? "routes")]
  have seeder : e.seeder = e'.seeder := by
    rw [built.seeder, built'.seeder]
    exact any_isTrue_alike (alike.get? "seeder")
  have factory : e.hasFactory = e'.hasFactory := by
    have both := isSome_factoryOf_alike (alike.get? "factory") e.name
    obtain ⟨made, read, is⟩ := map_eq_ok.1 built.factory
    obtain ⟨made', read', is'⟩ := map_eq_ok.1 built'.factory
    rw [read, same, read'] at both
    rw [hasFactory, hasFactory, ← is, ← is']
    exact Except.ok.inj both
  have observers : e.hasObservers = e'.hasObservers := by
    rw [hasObservers, hasObservers, built.observers, built'.observers, same]
    exact congrArg not (isEmpty_readable_alike (objectAt_alike (alike.get? "observers") _)
      fun _ _ _ => Action.listOfJson_eq_none_alike)
  have policies : e.hasPolicies = e'.hasPolicies := by
    rw [hasPolicies, hasPolicies, built.policies, built'.policies, same]
    refine congrArg not (isEmpty_readable_alike (objectAt_alike (alike.get? "policies") _)
      fun _ _ _ like => ?_)
    rcases like.cases with ⟨rfl, -⟩ | ⟨items, others, rfl, rfl, -⟩ | ⟨members, others, rfl,
      rfl, -⟩ <;> rfl
  unfold Artifact.ofEntity Artifact.modelPath Artifact.controllerPath Artifact.migrationPattern?
    Artifact.migrationSuffix? Artifact.factoryPath Artifact.seederPath Artifact.policyPath
      Artifact.observerPath className
  rw [same, table, routes, seeder, factory, policies, observers]

/-- The text of a value that is not scalar is no plain name, so plain names of tables are the
same. -/
theorem table_of_plain (h : entityOf name config = .ok e) (h' : entityOf name config' = .ok e')
    (alike : MembersAlike shape config config') (plain : Naming.IsPlain e.1.table) :
    e.1.table = e'.1.table := by
  have built := isFrom_of_entityOf h
  have built' := isFrom_of_entityOf h'
  rw [built.table] at plain
  rw [built.table, built'.table, e.2, e'.2] at *
  have each := alike.get? "table"
  revert each plain
  generalize config.get? "table" = v
  generalize config'.get? "table" = w
  intro plain each
  cases each with
  | none => rfl
  | @some v w like =>
    rcases like.eq_or_compound with rfl | ⟨compound, -⟩
    · rfl
    · have truthy := isTruthy_eq like
      cases void : v.isTruthy with
      | false => simp [textAt, textAt?, Option.filter, void, ← truthy]
      | true =>
        obtain ⟨c, mem, first⟩ := Json.head?_plain compound
        have never : ∀ c ∈ ['[', '\x7b'], Naming.isPlainChar c = false := by decide
        have text : textAt (some v) (Naming.table name) = v.plain := by
          simp [textAt, textAt?, Option.filter, void]
        rw [text] at plain
        exact absurd (plain c (List.mem_of_head? first))
          (by rw [never c mem]; exact Bool.false_ne_true)

end Entity

namespace Schema

variable {shape : Shape} {a b : Json.Members} {s t : Schema}

/-- Entities of blocks that are alike. -/
def AreAlike (shape : Shape) (e e' : Entity) : Prop :=
  ∃ name config config', ∃ built built' : { e : Entity // e.name = name },
    MembersAlike (shape.inside name) config config' ∧
    entityOf name config = .ok built ∧ entityOf name config' = .ok built' ∧
    built.1 = e ∧ built'.1 = e'

/-- Documents that are alike give entities of blocks that are alike under the same names. -/
theorem entities_of_build (h : build a = .ok s) (h' : build b = .ok t)
    (alike : MembersAlike shape a b) (name : String) :
    Option.Rel (AreAlike (shape.inside "models")) (s.entities.get? name)
      (t.entities.get? name) := by
  obtain ⟨entities, _, read, areEntities⟩ := (isFrom_of_build h).entities
  obtain ⟨entities', _, read', areEntities'⟩ := (isFrom_of_build h').entities
  rw [areEntities, areEntities']
  exact (areBlocks_of_blocksOf read).get?_alike (areBlocks_of_blocksOf read')
    (objectAt_alike (alike.get? "models") "models")
    (fun name config config' b b' alike built built' => ⟨name, config, config', b, b', alike, built,
      built', rfl, rfl⟩) name

/-- Whatever the order of members, the entities have the same names. -/
theorem entityKeys_of_build (h : build a = .ok s) (h' : build b = .ok t)
    (alike : MembersAlike shape a b) : s.entities.keys.Perm t.entities.keys :=
  perm_of_mem_iff s.entities.nodup t.entities.nodup
    (OrderedMap.mem_keys_iff (entities_of_build h h' alike))

/-- Documents that are alike give pivot tables of the same names. -/
theorem pivots_of_build (h : build a = .ok s) (h' : build b = .ok t)
    (alike : MembersAlike shape a b) (name : String) :
    Option.Rel (fun _ _ => True) (s.pivots.get? name) (t.pivots.get? name) := by
  obtain ⟨pivots, _, read, arePivots⟩ := (isFrom_of_build h).pivots
  obtain ⟨pivots', _, read', arePivots'⟩ := (isFrom_of_build h').pivots
  rw [arePivots, arePivots']
  exact (areBlocks_of_blocksOf read).get?_alike (areBlocks_of_blocksOf read')
    (objectAt_alike (alike.get? "pivots") "pivots")
    (fun _ _ _ _ _ _ _ _ => trivial) name

theorem enabled_of_build (h : build a = .ok s) (h' : build b = .ok t)
    (alike : MembersAlike shape a b) : s.auth.enabled = t.auth.enabled := by
  rw [auth, auth, settingsOrDefault, settingsOrDefault, (isFrom_of_build h).settings,
    (isFrom_of_build h').settings]
  have each := alike.get? "meta"
  revert each
  generalize a.get? "meta" = v
  generalize b.get? "meta" = w
  intro each
  cases each with
  | none => rfl
  | some like =>
    rcases like.cases with ⟨rfl, -⟩ | ⟨items, others, rfl, rfl, -⟩ | ⟨members, others,
      rfl, rfl, alike⟩
    · rfl
    · rfl
    · exact any_isTruthy_alike ((objectAt_alike (alike.get? "auth") "meta.auth").get? "enabled")

/-- Documents that are alike require the same files, if blocks that are alike have tables of one
name. -/
theorem requiredArtifacts_of_tables (h : build a = .ok s) (h' : build b = .ok t)
    (alike : MembersAlike shape a b)
    (tables : ∀ name e e', s.entities.get? name = some e → AreAlike (shape.inside "models") e e' →
      e.table = e'.table) :
    s.requiredArtifacts = t.requiredArtifacts := by
  have entity (name : String) : Option.Rel (fun e e' => Artifact.ofEntity e = Artifact.ofEntity e')
      (s.entities.get? name) (t.entities.get? name) := by
    have rel := entities_of_build h h' alike name
    have table := tables name
    revert rel table
    generalize s.entities.get? name = v
    generalize t.entities.get? name = w
    intro rel table
    cases rel with
    | none => exact .none
    | @some e e' alike =>
      have one := table e e' rfl alike
      obtain ⟨_, _, _, built, built', alike, read, read', rfl, rfl⟩ := alike
      exact .some (Entity.required_of_alike read read' alike one)
  rw [requiredArtifacts, requiredArtifacts, enabled_of_build h h' alike]
  refine distinctSorted_congr fun text => ?_
  simp only [List.mem_append, List.mem_flatMap, List.mem_map]
  refine or_congr_left (or_congr (or_congr_right ?_) ?_)
  · exact OrderedMap.exists_mem_values_iff entity fun e e' same => by rw [same]
  · exact exists_congr fun name => and_congr_left fun _ =>
      OrderedMap.mem_keys_iff (pivots_of_build h h' alike) name

/-- Whatever the order of groups, the same files are required. -/
theorem requiredArtifacts_of_build {ordered : Bool} (h : build a = .ok s) (h' : build b = .ok t)
    (alike : MembersAlike (documentShape ordered) a b) :
    s.requiredArtifacts = t.requiredArtifacts := by
  refine requiredArtifacts_of_tables h h' alike ?_
  rintro - _ _ - ⟨name, config, config', built, built', alike, read, read', rfl, rfl⟩
  rw [(Entity.isFrom_of_entityOf read).table, (Entity.isFrom_of_entityOf read').table,
    built.2, built'.2, Json.eq_of_rel (alike.get? "table")]

/-- Whatever the order of any members, the same files are required if names are plain. -/
theorem requiredArtifacts_of_plain (h : build a = .ok s) (h' : build b = .ok t)
    (alike : MembersAlike shape a b) (plain : s.HasPlainNames) :
    s.requiredArtifacts = t.requiredArtifacts := by
  refine requiredArtifacts_of_tables h h' alike ?_
  rintro name e - found ⟨_, config, config', built, built', alike, read, read', rfl, rfl⟩
  exact Entity.table_of_plain read read' alike
    (plain.entities _ (OrderedMap.mem_values.2 ⟨name, found⟩)).2

end Schema
end Scaffold
