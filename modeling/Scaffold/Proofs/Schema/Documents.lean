import Scaffold.Dependency
import Scaffold.Proofs.Schema.Parts
import Scaffold.Proofs.Sorting

/-!
# Schemas of documents that are alike

`Schema.IsFrom` finds the parts of a document in the schema that is built from it. When two
documents that are alike declare their parts in one order too, the schemas agree in all that shows
in generated files: `Schema.agrees_of_build`.
-/

namespace Scaffold
set_option autoImplicit false

open Json (Shape AlikeAs MembersAlike)

namespace Pivot

open Schema

/-- Pivot tables of one form: nothing differs but what could not be read. -/
structure Agrees (p p' : Pivot) : Prop where
  name : p.name = p'.name
  fields : p.fields = p'.fields
  unique : p.unique = p'.unique

theorem agrees_of_pivotOf {name : String} {config config' : Json.Members}
    {p p' : { p : Pivot // p.name = name }} (h : pivotOf name config = .ok p)
    (h' : pivotOf name config' = .ok p')
    (alike : MembersAlike (pivotShape true) config config') : p.1.Agrees p'.1 := by
  have group := (objectAt_alike (alike.get? "fields") (name ++ ".fields")).eq
  simp only [pivotOf, bind_eq_ok] at h h'
  obtain ⟨⟨fields, issues⟩, read, eq⟩ := h
  obtain ⟨⟨fields', issues'⟩, read', eq'⟩ := h'
  obtain rfl := Except.ok.inj eq
  obtain rfl := Except.ok.inj eq'
  rw [group, read'] at read
  obtain ⟨rfl, -⟩ := Prod.mk.inj (Except.ok.inj read)
  exact ⟨rfl, rfl, by rw [Json.eq_of_rel (alike.get? "unique")]⟩

end Pivot

namespace Schema

section Blocks

variable {α : Type} {nameOf : α → String}
  {build : (name : String) → Json.Members → Except BuildError { a : α // nameOf a = name }}
  {issue : String → Issue}

/-- The blocks of a group are those of its objects whose names are not blank. -/
structure AreBlocks (build : (name : String) → Json.Members →
      Except BuildError { a : α // nameOf a = name })
    (members : Json.Members) (blocks : List (Named nameOf)) : Prop where
  sublist : (blocks.map (·.1.1)).Sublist (members.map (·.1))
  sound : ∀ block ∈ blocks, ∃ config b, (block.1.1, Json.object config) ∈ members ∧
    Text.isBlankText block.1.1 = false ∧ build block.1.1 config = .ok b ∧ b.1 = block.1.2
  complete : ∀ name config, (name, Json.object config) ∈ members → Text.isBlankText name = false →
    ∃ b, build name config = .ok b ∧ ⟨(name, b.1), b.2⟩ ∈ blocks

theorem areBlocks_of_blocksOf {members : Json.Members} {blocks : List (Named nameOf)}
    {issues : List Issue} (h : blocksOf build issue members = .ok (blocks, issues)) :
    AreBlocks build members blocks := by
  induction members generalizing blocks issues with
  | nil =>
    obtain ⟨rfl, -⟩ := Prod.mk.inj (Except.ok.inj h)
    exact ⟨.slnil, by simp, by simp⟩
  | cons m rest ih =>
    obtain ⟨name, value⟩ := m
    have onward {blocks : List (Named nameOf)}
        (others : AreBlocks build rest blocks) : ∀ block ∈ blocks,
        ∃ config b, (block.1.1, Json.object config) ∈ (name, value) :: rest ∧
        Text.isBlankText block.1.1 = false ∧
          build block.1.1 config = .ok b ∧ b.1 = block.1.2 := by
      intro block mem
      obtain ⟨config', b', isIn, rest⟩ := others.sound block mem
      exact ⟨config', b', List.mem_cons_of_mem _ isIn, rest⟩
    unfold blocksOf at h
    split at h
    · rename_i config named
      simp only [bind_eq_ok] at h
      obtain ⟨b, built, ⟨others, issues'⟩, read, made⟩ := h
      obtain ⟨rfl, -⟩ := Prod.mk.inj (Except.ok.inj made)
      have all := ih read
      refine ⟨all.sublist.cons_cons name, List.forall_mem_cons.2 ⟨?_, onward all⟩, ?_⟩
      · exact ⟨config, b, List.mem_cons_self .., named, built, rfl⟩
      · intro name' config' mem named'
        rcases List.mem_cons.1 mem with here | mem
        · obtain ⟨rfl, same⟩ := Prod.mk.inj here
          obtain rfl := Json.object.inj same
          exact ⟨b, built, List.mem_cons_self ..⟩
        · obtain ⟨b', built', isIn⟩ := all.complete name' config' mem named'
          exact ⟨b', built', List.mem_cons_of_mem _ isIn⟩
    · rename_i noBlock
      obtain ⟨⟨others, issues'⟩, read, made⟩ := map_eq_ok.1 h
      obtain ⟨rfl, -⟩ := Prod.mk.inj made
      have all := ih read
      refine ⟨all.sublist.cons name, onward all, fun name' config' mem named' => ?_⟩
      rcases List.mem_cons.1 mem with here | mem
      · obtain ⟨rfl, rfl⟩ := Prod.mk.inj here
        exact absurd named' (noBlock config' rfl)
      · exact all.complete name' config' mem named'

variable {shape : Shape} {members others : Json.Members} {blocks blocks' : List (Named nameOf)}
  {R : α → α → Prop}

/-- What is found among the blocks. -/
theorem AreBlocks.get?_eq_some (h : AreBlocks build members blocks)
    (nodup : (members.map (·.1)).Nodup) {name : String} {a : α} :
    (mapOf blocks).get? name = some a ↔ ∃ config b, members.get? name = some (.object config) ∧
      Text.isBlankText name = false ∧ build name config = .ok b ∧ b.1 = a := by
  have distinct : ((blocks.map (·.1)).map (·.1)).Nodup := by
    rw [List.map_map]
    exact nodup.sublist h.sublist
  rw [OrderedMap.get?_eq_some, mapOf, OrderedMap.entries_ofList distinct, List.mem_map]
  constructor
  · rintro ⟨block, mem, same⟩
    obtain ⟨config, b, isIn, named, built, is⟩ := h.sound block mem
    obtain ⟨rfl, rfl⟩ := Prod.mk.inj same
    exact ⟨config, b, (Json.get?_eq_some nodup).2 isIn, named, built, is⟩
  · rintro ⟨config, b, found, named, built, rfl⟩
    obtain ⟨b', built', mem⟩ := h.complete name config ((Json.get?_eq_some nodup).1 found) named
    obtain rfl := Except.ok.inj (built.symm.trans built')
    exact ⟨_, mem, rfl⟩

/-- Of two values that are alike both are objects or neither is. -/
theorem objects_of_rel {v w : Option Json} (rel : Option.Rel (AlikeAs shape) v w) :
    (∃ config config', v = some (.object config) ∧ w = some (.object config') ∧
      MembersAlike shape config config') ∨ (∀ config, v ≠ some (.object config)) ∧
      ∀ config, w ≠ some (.object config) := by
  cases rel with
  | none => exact .inr ⟨nofun, nofun⟩
  | @some a b like =>
    rcases like.cases with ⟨rfl, scalar⟩ | ⟨_, _, rfl, rfl, -⟩ | ⟨members, others, rfl, rfl, alike⟩
    · refine .inr ⟨?_, ?_⟩ <;>
      · rintro config ⟨rfl⟩
        exact absurd scalar Bool.false_ne_true
    · exact .inr ⟨nofun, nofun⟩
    · exact .inl ⟨members, others, rfl, rfl, alike⟩

/-- Groups that are alike have alike blocks under every name. -/
theorem AreBlocks.get?_alike (h : AreBlocks build members blocks)
    (h' : AreBlocks build others blocks') (alike : MembersAlike shape members others)
    (each : ∀ name config config' b b', MembersAlike (shape.inside name) config config' →
      build name config = .ok b → build name config' = .ok b' → R b.1 b'.1) (name : String) :
    Option.Rel R ((mapOf blocks).get? name) ((mapOf blocks').get? name) := by
  have found (a : α) : (mapOf blocks).get? name = some a ↔ _ := h.get?_eq_some alike.nodup
  have found' (a : α) : (mapOf blocks').get? name = some a ↔ _ := h'.get?_eq_some alike.nodup'
  have none_none (absent : ∀ a, (mapOf blocks).get? name ≠ some a)
      (absent' : ∀ a, (mapOf blocks').get? name ≠ some a) :
      Option.Rel R ((mapOf blocks).get? name) ((mapOf blocks').get? name) := by
    rw [Option.eq_none_iff_forall_ne_some.2 absent, Option.eq_none_iff_forall_ne_some.2 absent']
    exact .none
  rcases objects_of_rel (alike.get? name) with ⟨config, config', is, is', like⟩ | ⟨no, no'⟩
  · cases blank : Text.isBlankText name with
    | true => exact none_none (by simp [found, blank]) (by simp [found', blank])
    | false =>
      obtain ⟨b, built, -⟩ := h.complete name config ((Json.get?_eq_some alike.nodup).1 is) blank
      obtain ⟨b', built', -⟩ :=
        h'.complete name config' ((Json.get?_eq_some alike.nodup').1 is') blank
      rw [(found b.1).2 ⟨config, b, is, blank, built, rfl⟩,
        (found' b'.1).2 ⟨config', b', is', blank, built', rfl⟩]
      exact .some (each name config config' b b' like built built')
  · refine none_none (fun a => ?_) fun a => ?_
    · rw [Ne, found]
      rintro ⟨config, -, is, -⟩
      exact no config is
    · rw [Ne, found']
      rintro ⟨config, -, is, -⟩
      exact no' config is

/-- Groups that are alike and whose order counts have alike blocks in one order. -/
theorem forall₂_blocks {issues issues' : List Issue}
    (pairs : List.Forall₂ (fun m n => m.1 = n.1 ∧ AlikeAs (shape.inside m.1) m.2 n.2)
      members others)
    (each : ∀ name config config' b b', MembersAlike (shape.inside name) config config' →
      build name config = .ok b → build name config' = .ok b' → R b.1 b'.1)
    (h : blocksOf build issue members = .ok (blocks, issues))
    (h' : blocksOf build issue others = .ok (blocks', issues')) :
    List.Forall₂ (fun x y => x.1 = y.1 ∧ R x.2 y.2) (blocks.map (·.1)) (blocks'.map (·.1)) := by
  induction pairs generalizing blocks blocks' issues issues' with
  | nil =>
    obtain ⟨rfl, -⟩ := Prod.mk.inj (Except.ok.inj h)
    obtain ⟨rfl, -⟩ := Prod.mk.inj (Except.ok.inj h')
    exact .nil
  | @cons m n rest rest' pair _ ih =>
    obtain ⟨name, v⟩ := m
    obtain ⟨_, w⟩ := n
    obtain ⟨rfl, like⟩ := pair
    rcases objects_of_rel (.some like) with ⟨config, config', is, is', alike⟩ | ⟨no, no'⟩
    · obtain rfl := Option.some.inj is
      obtain rfl := Option.some.inj is'
      unfold blocksOf at h h'
      cases blank : Text.isBlankText name with
      | true =>
        simp only [blank] at h h'
        obtain ⟨⟨others, _⟩, read, made⟩ := map_eq_ok.1 h
        obtain ⟨⟨others', _⟩, read', made'⟩ := map_eq_ok.1 h'
        obtain ⟨rfl, -⟩ := Prod.mk.inj made
        obtain ⟨rfl, -⟩ := Prod.mk.inj made'
        exact ih read read'
      | false =>
        simp only [blank, bind_eq_ok] at h h'
        obtain ⟨b, built, ⟨others, _⟩, read, made⟩ := h
        obtain ⟨b', built', ⟨others', _⟩, read', made'⟩ := h'
        obtain ⟨rfl, -⟩ := Prod.mk.inj (Except.ok.inj made)
        obtain ⟨rfl, -⟩ := Prod.mk.inj (Except.ok.inj made')
        exact .cons ⟨rfl, each name config config' b b' alike built built'⟩ (ih read read')
    · have passed (v : Json) (no : ∀ config, v ≠ .object config) {rest : Json.Members}
          {blocks : List (Named nameOf)} {issues : List Issue}
          (h : blocksOf build issue ((name, v) :: rest) = .ok (blocks, issues)) :
          ∃ issues, blocksOf build issue rest = .ok (blocks, issues) := by
        unfold blocksOf at h
        split at h
        · exact absurd rfl (no _)
        · obtain ⟨⟨others, issues⟩, read, made⟩ := map_eq_ok.1 h
          obtain ⟨rfl, -⟩ := Prod.mk.inj made
          exact ⟨issues, read⟩
      obtain ⟨_, read⟩ := passed v (fun config is => no config (is ▸ rfl)) h
      obtain ⟨_, read'⟩ := passed w (fun config is => no' config (is ▸ rfl)) h'
      exact ih read read'

end Blocks

/-! Settings and routes written by hand -/

/-- The settings that are shown in generated files. -/
structure SettingsAgree (a b : Meta) : Prop where
  enabled : a.auth.enabled = b.auth.enabled
  provider : a.auth.provider = b.auth.provider
  middlewares : a.middlewares = b.middlewares

theorem settingsOf_alike {v w : Option Json} (h : Option.Rel (AlikeAs settingsShape) v w) :
    SettingsAgree ((settingsOf v).1.getD {}) ((settingsOf w).1.getD {}) := by
  cases h with
  | none => exact ⟨rfl, rfl, rfl⟩
  | some like =>
    rcases like.cases with ⟨rfl, -⟩ | ⟨items, others, rfl, rfl, -⟩ | ⟨members, others,
      rfl, rfl, alike⟩
    · exact ⟨rfl, rfl, rfl⟩
    · exact ⟨rfl, rfl, rfl⟩
    · have auth := objectAt_alike (alike.get? "auth") "meta.auth"
      refine ⟨any_isTruthy_alike (auth.get? "enabled"), ?_, ?_⟩
      · exact congrArg (textAt · "sanctum") (Json.eq_of_rel (auth.get? "provider"))
      · exact congrArg textsAt (Json.eq_of_rel (alike.get? "middlewares"))

theorem customRouteOf_alike {a b : Json} (index : Nat) (h : AlikeAs routeShape a b) :
    (customRouteOf index a).toOption = (customRouteOf index b).toOption := by
  rcases h.cases with ⟨rfl, -⟩ | ⟨items, others, rfl, rfl, -⟩ | ⟨members, others, rfl, rfl, alike⟩
  · rfl
  · rfl
  · simp only [customRouteOf, Json.eq_of_rel (alike.get? "method"),
      Json.eq_of_rel (alike.get? "uri"), Json.eq_of_rel (alike.get? "controller"),
      Json.eq_of_rel (alike.get? "middleware"), Json.eq_of_rel (alike.get? "name")]

theorem customRoutesFrom_alike {items others : List Json}
    (pairs : List.Forall₂ (AlikeAs routeShape) items others) (index : Nat) :
    (customRoutesFrom index items).1 = (customRoutesFrom index others).1 := by
  induction pairs generalizing index with
  | nil => rfl
  | @cons a b _ _ like _ ih =>
    have one := customRouteOf_alike index like
    simp only [customRoutesFrom]
    cases first : customRouteOf index a <;> cases second : customRouteOf index b <;>
      simp_all [Except.toOption]

theorem customRoutesOf_alike {v w : Option Json} (h : Option.Rel (AlikeAs routeShape) v w) :
    (customRoutesOf v).1 = (customRoutesOf w).1 := by
  cases h with
  | none => rfl
  | some like =>
    rcases like.cases with ⟨rfl, -⟩ | ⟨items, others, rfl, rfl, pairs⟩ | ⟨members,
      others, rfl, rfl, -⟩
    · rfl
    · exact customRoutesFrom_alike pairs 0
    · rfl

/-! Whole schemas -/

/-- What a schema is built from. -/
structure IsFrom (document : Json.Members) (s : Schema) : Prop where
  settings : s.settings = (settingsOf (document.get? "meta")).1
  entities : ∃ blocks issues,
    blocksOf entityOf .model (objectAt (document.get? "models") "models").1 = .ok (blocks, issues) ∧
    s.entities = mapOf blocks
  pivots : ∃ blocks issues, blocksOf pivotOf .pivot (objectAt (document.get? "pivots") "pivots").1 =
    .ok (blocks, issues) ∧ s.pivots = mapOf blocks
  customRoutes : s.customRoutes =
    (customRoutesOf ((objectAt (document.get? "custom") "custom").1.get? "routes")).1
  document : s.document = document

theorem isFrom_of_build {document : Json.Members} {s : Schema} (h : build document = .ok s) :
    s.IsFrom document := by
  unfold build at h
  simp only [bind_eq_ok] at h
  obtain ⟨⟨entities, issues⟩, entitiesRead, ⟨pivots, issues'⟩, pivotsRead, made⟩ := h
  obtain rfl := Except.ok.inj made
  exact ⟨rfl, ⟨entities, issues, entitiesRead, rfl⟩, ⟨pivots, issues', pivotsRead, rfl⟩, rfl, rfl⟩

/-- Schemas of one form: nothing differs but what does not show in generated files. -/
structure Agrees (s t : Schema) : Prop where
  settings : SettingsAgree s.settingsOrDefault t.settingsOrDefault
  entities :
    List.Forall₂ (fun x y => x.1 = y.1 ∧ x.2.Agrees y.2) s.entities.entries t.entities.entries
  pivots : List.Forall₂ (fun x y => x.1 = y.1 ∧ x.2.Agrees y.2) s.pivots.entries t.pivots.entries
  customRoutes : s.customRoutes = t.customRoutes

variable {shape : Shape} {a b : Json.Members} {s t : Schema}

theorem settings_of_build (h : build a = .ok s) (h' : build b = .ok t) {ordered : Bool}
    (alike : MembersAlike (documentShape ordered) a b) :
    SettingsAgree s.settingsOrDefault t.settingsOrDefault := by
  rw [settingsOrDefault, settingsOrDefault, (isFrom_of_build h).settings,
    (isFrom_of_build h').settings]
  exact settingsOf_alike (alike.get? "meta")

/-- Documents whose groups come in one order give schemas of one form. -/
theorem agrees_of_build (h : build a = .ok s) (h' : build b = .ok t)
    (alike : MembersAlike (documentShape true) a b) :
    s.Agrees t := by
  have built := isFrom_of_build h
  have built' := isFrom_of_build h'
  obtain ⟨entities, _, entitiesRead, areEntities⟩ := built.entities
  obtain ⟨entities', _, entitiesRead', areEntities'⟩ := built'.entities
  obtain ⟨pivots, _, pivotsRead, arePivots⟩ := built.pivots
  obtain ⟨pivots', _, pivotsRead', arePivots'⟩ := built'.pivots
  have models := objectAt_alike (alike.get? "models") "models"
  have tables := objectAt_alike (alike.get? "pivots") "pivots"
  have entries {α : Type} {nameOf : α → String}
      {build : (name : String) → Json.Members → Except BuildError { a : α // nameOf a = name }}
      {issue : String → Issue} {members : Json.Members} {blocks : List (Named nameOf)}
      {issues : List Issue} (read : blocksOf build issue members = .ok (blocks, issues))
      (nodup : (members.map (·.1)).Nodup) :
      (mapOf blocks).entries = blocks.map (·.1) := by
    refine OrderedMap.entries_ofList ?_
    rw [List.map_map]
    exact nodup.sublist (areBlocks_of_blocksOf read).sublist
  refine ⟨settings_of_build h h' alike, ?_, ?_, ?_⟩
  · rw [areEntities, areEntities', entries entitiesRead models.nodup,
      entries entitiesRead' models.nodup']
    exact forall₂_blocks (models.forall₂ rfl) (fun _ _ _ _ _ alike built built' =>
      Entity.agrees_of_entityOf built built' alike)
      entitiesRead entitiesRead'
  · rw [arePivots, arePivots', entries pivotsRead tables.nodup, entries pivotsRead' tables.nodup']
    exact forall₂_blocks (tables.forall₂ rfl) (fun _ _ _ _ _ alike built built' =>
      Pivot.agrees_of_pivotOf built built' alike) pivotsRead pivotsRead'
  · rw [built.customRoutes, built'.customRoutes]
    exact customRoutesOf_alike ((objectAt_alike (alike.get? "custom") "custom").get? "routes")

end Schema
end Scaffold
