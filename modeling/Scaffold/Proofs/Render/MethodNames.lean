import Mathlib.Data.List.Nodup
import Scaffold.Proofs.OrderedMaps
import Scaffold.Proofs.Render.Methods
import Scaffold.Schema.Build
import Scaffold.Validation

/-!
# Names of methods

Names of methods that differ in the case of Latin letters only are one name in PHP, and no class has
two methods of one name. `Render.generated_distinct_iff` tells when a generated class keeps to this:
what the schema names must not clash, nor meet a method that the class has anyway.
-/

namespace Scaffold.Render
set_option autoImplicit false

variable {lines names others calls : List String} {line name : String} {s : Schema} {e : Entity}

/-! ## Names as they are compared -/

/-- The name of a method as it is compared: what stands before the parameters, in small letters. -/
def spoken (name : String) : List Char := (name.toList.takeWhile (· != '(')).map Char.toLower

/-- The name of the method that a line opens. -/
def opened? (line : String) : Option (List Char) :=
  (openings.findSome? fun start => Text.dropHead? start line).map spoken

/-- The lines open no two methods of one name. -/
def AreDistinct (lines : List String) : Prop := (lines.filterMap opened?).Nodup

/-- The names are not one another's, nor those of the others. -/
def AreApart (names others : List String) : Prop :=
  (names.map spoken).Nodup ∧ ∀ name ∈ names, spoken name ∉ others.map spoken

instance : Decidable (AreApart names others) := inferInstanceAs (Decidable (_ ∧ _))

theorem spoken_append {front : String} (clear : ∀ c ∈ front.toList, (c != '(') = true)
    (back : String) : spoken (front ++ back) = front.toList.map Char.toLower ++ spoken back := by
  rw [spoken, String.toList_append, List.takeWhile_append_of_pos clear, List.map_append, spoken]

/-- What follows the bracket does not count. -/
theorem spoken_bracket (name rest : String) : spoken (name ++ "(" ++ rest) = spoken name := by
  have bracket : "(".toList = ['('] := rfl
  rw [spoken, String.toList_append, String.toList_append, bracket, List.append_assoc,
    List.takeWhile_append]
  split
  · rename_i whole
    have all := (List.takeWhile_prefix (· != '(')).eq_of_length whole
    rw [spoken, all]
    simp
  · rfl

theorem Opens.opened?_eq (h : Opens line name) : opened? line = some (spoken name) := by
  obtain ⟨start, mem, starts⟩ := h
  obtain ⟨rest, whole⟩ := startsWith_iff.1 starts
  have parts : line = start ++ (name ++ "(" ++ String.ofList rest) := by
    apply String.toList_inj.1
    simp [← whole]
  have found : (openings.findSome? fun start => Text.dropHead? start line) =
      some (name ++ "(" ++ String.ofList rest) := by
    simp only [openings, List.mem_cons, List.not_mem_nil, or_false] at mem
    rcases mem with rfl | rfl
    · rw [parts, openings, List.findSome?_cons, Text.dropHead?_append]
    · have other : Text.dropHead? "    public function " line = none := by
        simp [parts, Text.dropHead?, Chars.dropHead?]
      rw [openings, List.findSome?_cons, other, List.findSome?_cons, parts, Text.dropHead?_append]
  rw [opened?, found, Option.map_some, spoken_bracket]

theorem opened?_eq_none (plain : isHeading line = false) : opened? line = none := by
  have absent : (openings.findSome? fun start => Text.dropHead? start line) = none := by
    refine List.findSome?_eq_none_iff.2 fun start mem => ?_
    have other := List.any_eq_false.1 plain start mem
    simpa [Text.startsWith, Text.dropHead?] using other
  rw [opened?, absent, Option.map_none]

theorem filterMap_opened?_of_forall₂ (opens : List.Forall₂ Opens lines names) :
    lines.filterMap opened? = names.map spoken := by
  induction opens with
  | nil => rfl
  | cons opens _ ih => rw [List.filterMap_cons_some opens.opened?_eq, ih, List.map_cons]

theorem Writes.filterMap_opened? (h : Writes lines names) :
    lines.filterMap opened? = names.map spoken := by
  have headings : lines.filterMap opened? = (lines.filter isHeading).filterMap opened? := by
    rw [List.filterMap_filter]
    refine List.filterMap_congr fun line _ => ?_
    cases plain : isHeading line with
    | true => simp
    | false => simp [opened?_eq_none plain]
  rw [headings, filterMap_opened?_of_forall₂ h]

theorem Tells.areDistinct_iff (h : Tells lines names calls) :
    AreDistinct lines ↔ (names.map spoken).Nodup := by
  rw [AreDistinct, h.writes.filterMap_opened?]

theorem nodup_append_iff : ((names ++ others).map spoken).Nodup ↔ (names.map spoken).Nodup ∧
    AreApart others names := by
  rw [List.map_append, List.nodup_append', AreApart, List.disjoint_right, List.forall_mem_map]

/-! ## Controllers and observers -/

/-- Keys that are looked up keep their order. -/
theorem map_fst_filterMap {α : Type} (keys : List String) (f : String → Option α) :
    (keys.filterMap fun key => (f key).map fun value => (key, value)).map (·.1) = keys.filter
      fun key => (f key).isSome := by
  rw [List.map_filterMap, ← List.filterMap_eq_filter]
  refine List.filterMap_congr fun key _ => ?_
  cases held : f key <;> simp [Option.guard, held]

/-- The methods that a controller may have whatever names the schema uses. -/
def fixedMethods : List String :=
  "__construct" :: RouteAction.all.map RouteAction.method ++ hookStages.map handlerName

theorem nodup_fixedMethods : (fixedMethods.map spoken).Nodup := by decide +kernel

theorem fixed_sublist (s : Schema) (e : Entity) :
    ((if (middlewareLines s e).isEmpty then [] else ["__construct"]) ++
      (RouteAction.all.filter e.routes.contains).map RouteAction.method ++
      (stagesOf e).map fun stage => handlerName stage.1).Sublist fixedMethods := by
  have constructor :
      (if (middlewareLines s e).isEmpty then [] else ["__construct"]).Sublist ["__construct"] := by
    split
    · exact List.nil_sublist _
    · exact List.Sublist.refl _
  have routes : ((RouteAction.all.filter e.routes.contains).map RouteAction.method).Sublist
      (RouteAction.all.map RouteAction.method) := List.filter_sublist.map _
  have handlers :
      ((stagesOf e).map fun stage => handlerName stage.1).Sublist (hookStages.map handlerName) := by
    have stages : ((stagesOf e).map (·.1)).Sublist hookStages := by
      rw [stagesOf, map_fst_filterMap]
      exact List.filter_sublist
    have named := stages.map handlerName
    rwa [List.map_map] at named
  exact (constructor.append routes).append handlers

theorem spoken_fileMethodNames : (fileMethodNames e).map spoken =
    (e.fileFields.map fun f => spoken (Naming.studly f.1)).flatMap fun key =>
      ["upload".toList ++ key, "download".toList ++ key] := by
  have upload (name : String) : spoken ("upload" ++ name) = "upload".toList ++ spoken name :=
    spoken_append (by decide) name
  have download (name : String) : spoken ("download" ++ name) = "download".toList ++ spoken name :=
    spoken_append (by decide) name
  rw [fileMethodNames, List.map_flatMap, List.flatMap_map]
  simp only [List.map_cons, List.map_nil, upload, download]

/-- The methods of two fields clash only where the fields do. -/
theorem nodup_fileMethodNames :
    ((fileMethodNames e).map spoken).Nodup ↔
    (e.fileFields.map fun f => spoken (Naming.studly f.1)).Nodup := by
  rw [spoken_fileMethodNames, List.nodup_flatMap]
  constructor
  · rintro ⟨-, apart⟩
    refine apart.imp fun {key other} disjoint same => ?_
    exact disjoint (List.mem_cons_self ..) (same ▸ List.mem_cons_self ..)
  · intro distinct
    refine ⟨fun key _ => by simp, distinct.imp fun {key other} different => ?_⟩
    simp [Function.onFun, different.symm]

theorem controllerOwn_perm (s : Schema) (e : Entity) : ∃ fixed, fixed.Sublist fixedMethods ∧
    (controllerOwn s e).Perm (fixed ++ fileMethodNames e) := by
  refine ⟨_, fixed_sublist s e, ?_⟩
  rw [controllerOwn, List.append_assoc, List.append_assoc _ _ (fileMethodNames e)]
  exact List.perm_append_comm.append_left _

/-- Of the methods that a controller has on its own only those for files can clash. -/
theorem nodup_controllerOwn (s : Schema) (e : Entity) : ((controllerOwn s e).map spoken).Nodup ↔
    (e.fileFields.map fun f => spoken (Naming.studly f.1)).Nodup := by
  obtain ⟨fixed, sublist, perm⟩ := controllerOwn_perm s e
  have apart : ∀ key ∈ fixedMethods.map spoken, ¬ "upload".toList <+: key ∧
    ¬ "download".toList <+: key := by decide +kernel
  rw [(perm.map spoken).nodup_iff, nodup_append_iff, AreApart, nodup_fileMethodNames]
  constructor
  · exact fun h => h.2.1
  · intro distinct
    refine ⟨nodup_fixedMethods.sublist (sublist.map _), distinct, fun name mem isFixed => ?_⟩
    obtain ⟨noUpload, noDownload⟩ := apart _ ((sublist.map spoken).subset isFixed)
    have key : spoken name ∈ (fileMethodNames e).map spoken := List.mem_map_of_mem mem
    rw [spoken_fileMethodNames] at key
    obtain ⟨_, -, key⟩ := List.mem_flatMap.1 key
    rcases List.mem_cons.1 key with key | key
    · exact noUpload ⟨_, key.symm⟩
    · exact noDownload ⟨_, (List.mem_singleton.1 key).symm⟩

theorem areDistinct_controllerLines (s : Schema) (e : Entity) : AreDistinct (controllerLines s e) ↔
    (e.fileFields.map fun f => spoken (Naming.studly f.1)).Nodup ∧
      AreApart (stubMethods ((stagesOf e).flatMap (·.2))) (controllerOwn s e) := by
  rw [(tells_controllerLines s e).areDistinct_iff, nodup_append_iff, nodup_controllerOwn]

theorem areDistinct_observerLines (e : Entity) : AreDistinct (observerLines e) ↔
    AreApart (stubMethods ((eventsOf e).flatMap (·.2))) ((eventsOf e).map (·.1)) := by
  have events : (((eventsOf e).map (·.1)).map spoken).Nodup := by
    have all : (observerEvents.map spoken).Nodup := by decide +kernel
    rw [eventsOf, map_fst_filterMap]
    exact all.sublist (List.filter_sublist.map _)
  rw [(tells_observerLines e).areDistinct_iff, nodup_append_iff]
  exact and_iff_right events

/-! ## Policies, factories and models -/

/-- The methods that a schema adds to a policy. -/
def addedMethods (e : Entity) : List String :=
  e.policies.keys.filter fun name => !standardMethods.contains name

theorem areDistinct_policyLines (e : Entity) :
    AreDistinct (policyLines e) ↔ AreApart (addedMethods e) standardMethods := by
  have standard : (standardMethods.map spoken).Nodup := by decide +kernel
  rw [(tells_policyLines e).areDistinct_iff, policyMethods, nodup_append_iff]
  exact and_iff_right standard

theorem areDistinct_factoryLines {values : List String} (read : definitionLines s e = .ok values) :
    AreDistinct (factoryLines e values) ↔
    AreApart ((factoryStates e).map (·.method)) ["definition"] := by
  rw [(tells_factoryLines read).areDistinct_iff, ← List.singleton_append, nodup_append_iff]
  exact and_iff_right (List.nodup_singleton _)

theorem areDistinct_modelLines (s : Schema) (e : Entity) : AreDistinct (modelLines s e) ↔
    ((relationMethods e).map spoken).Nodup ∧ AreApart (scopeMethods e) (relationMethods e) := by
  rw [(tells_modelLines s e).areDistinct_iff, nodup_append_iff]

/-! ## All classes -/

/-- No two methods of a generated class have one name exactly when this holds of the names that the
schema gives: in a controller, of its fields for files and of the actions of its hooks; in an
observer, of the actions of its events; in a policy, a factory and a model, of what it adds to the
methods that are always there. -/
theorem generated_distinct_iff (s : Schema) (e : Entity) :
    (controllerPage s e = page (controllerLines s e) ∧
      (AreDistinct (controllerLines s e) ↔
        (e.fileFields.map fun f => spoken (Naming.studly f.1)).Nodup ∧
        AreApart (stubMethods ((stagesOf e).flatMap (·.2))) (controllerOwn s e))) ∧
    (observerPage e = page (observerLines e) ∧
      (AreDistinct (observerLines e) ↔
        AreApart (stubMethods ((eventsOf e).flatMap (·.2))) ((eventsOf e).map (·.1)))) ∧
    (policyPage e = page (policyLines e) ∧
      (AreDistinct (policyLines e) ↔ AreApart (addedMethods e) standardMethods)) ∧
    (∀ values, definitionLines s e = .ok values →
      factoryPage s e = .ok (page (factoryLines e values)) ∧
      (AreDistinct (factoryLines e values) ↔
        AreApart ((factoryStates e).map (·.method)) ["definition"])) ∧
    (modelPage s e = page (modelLines s e) ∧
      (AreDistinct (modelLines s e) ↔
        ((relationMethods e).map spoken).Nodup ∧
        AreApart (scopeMethods e) (relationMethods e))) := by
  refine ⟨⟨controllerPage_eq s e, areDistinct_controllerLines s e⟩,
    ⟨observerPage_eq e, areDistinct_observerLines e⟩,
    ⟨policyPage_eq e, areDistinct_policyLines e⟩, ?_,
    ⟨modelPage_eq s e, areDistinct_modelLines s e⟩⟩
  intro values read
  refine ⟨?_, areDistinct_factoryLines read⟩
  rw [factoryPage_eq, read]
  rfl

/-- No class that is generated for an entity has two methods of one name. -/
structure HasDistinctMethods (s : Schema) (e : Entity) : Prop where
  controller : e.hasRoutes = true → AreDistinct (controllerLines s e)
  observer : e.hasObservers = true → AreDistinct (observerLines e)
  policy : e.hasPolicies = true → AreDistinct (policyLines e)
  factory : e.hasFactory = true → ∀ values, definitionLines s e = .ok values →
    AreDistinct (factoryLines e values)
  model : AreDistinct (modelLines s e)

/-- A document with one model that has something of everything, with these actions before a row is
made. -/
def withActions (actions : List String) : Json.Members :=
  [("meta", .object []),
    ("models", .object [("Tag", .object [
      ("fields", .object [("label", .string "string"), ("state", .string "enum:open,closed"),
        ("photo", .string "file")]),
      ("relations", .object [("parent", .string "belongsTo:Tag")]),
      ("routes", .array [.string "create", .string "update"]),
      ("scopes", .object [("open", .string "where:state,open")]),
      ("policies", .object [("archive", .string "authenticated")]),
      ("hooks", .object [("beforeCreate", .array (actions.map .string))]),
      ("observers", .object [("created", .array [.string "tell_all"])]),
      ("factory", .bool true)])])]

/-- With one action nothing clashes. -/
theorem generated_distinct_iff_sendMail :
    ∃ s e values, Schema.build (withActions ["sendMail"]) = .ok s ∧
    s.findings.isValid = true ∧ e ∈ s.entities.values ∧ definitionLines s e = .ok values ∧
    stubMethods ((stagesOf e).flatMap (·.2)) = ["sendMail"] ∧ HasDistinctMethods s e := by
  have checked : succeeds (Schema.build (withActions ["sendMail"])) (fun s => s.findings.isValid &&
      (s.entities.get? "Tag").any fun e => succeeds (definitionLines s e) (fun _ => true) &&
        stubMethods ((stagesOf e).flatMap (·.2)) == ["sendMail"] &&
        decide ((e.fileFields.map fun f => spoken (Naming.studly f.1)).Nodup) &&
        decide (AreApart (stubMethods ((stagesOf e).flatMap (·.2))) (controllerOwn s e)) &&
        decide (AreApart (stubMethods ((eventsOf e).flatMap (·.2))) ((eventsOf e).map (·.1))) &&
        decide (AreApart (addedMethods e) standardMethods) &&
        decide (AreApart ((factoryStates e).map (·.method)) ["definition"]) &&
        decide (((relationMethods e).map spoken).Nodup) &&
        decide (AreApart (scopeMethods e) (relationMethods e))) = true := by
    decide +kernel
  obtain ⟨s, built, holds⟩ := succeeds_eq_true.1 checked
  simp only [Bool.and_eq_true, Option.any_eq_true, beq_iff_eq, decide_eq_true_eq] at holds
  obtain ⟨valid, e, found, ⟨⟨⟨⟨⟨⟨⟨read, stubs⟩, files⟩, hooked⟩, observed⟩, added⟩, states⟩,
    relations⟩, scopes⟩ := holds
  obtain ⟨values, read, -⟩ := succeeds_eq_true.1 read
  obtain ⟨⟨-, controller⟩, ⟨-, observer⟩, ⟨-, policy⟩, factory, -, model⟩ :=
    generated_distinct_iff s e
  have distinct : HasDistinctMethods s e := by
    refine ⟨fun _ => controller.2 ⟨files, hooked⟩, fun _ => observer.2 observed,
      fun _ => policy.2 added, ?_, model.2 ⟨relations, scopes⟩⟩
    intro _ values read
    exact (factory values read).2.2 states
  exact ⟨s, e, values, built, valid, OrderedMap.mem_values.2 ⟨_, found⟩, read, stubs, distinct⟩

/-- Two actions whose names differ in the case of a letter get a method each. -/
theorem sendMail_clashes :
    ¬ ∀ (document : Json.Members) (s : Schema) (e : Entity), Schema.build document = .ok s →
    s.findings.isValid = true → e ∈ s.entities.values → HasDistinctMethods s e := by
  intro claimed
  have checked :
      succeeds (Schema.build (withActions ["sendMail", "sendmail"])) (fun s => s.findings.isValid &&
        (s.entities.get? "Tag").any fun e => e.hasRoutes &&
          stubMethods ((stagesOf e).flatMap (·.2)) == ["sendMail", "sendmail"]) = true := by
    decide +kernel
  obtain ⟨s, built, holds⟩ := succeeds_eq_true.1 checked
  simp only [Bool.and_eq_true, Option.any_eq_true, beq_iff_eq] at holds
  obtain ⟨valid, e, found, routed, stubs⟩ := holds
  have distinct :=
    (claimed _ s e built valid (OrderedMap.mem_values.2 ⟨_, found⟩)).controller routed
  have apart := ((areDistinct_controllerLines s e).1 distinct).2
  rw [stubs] at apart
  exact absurd apart.1 (by decide)

end Scaffold.Render
