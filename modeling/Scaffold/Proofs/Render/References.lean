import Scaffold.Artifact
import Scaffold.Proofs.OrderedMaps
import Scaffold.Proofs.Render.Methods
import Scaffold.Proofs.Sorting
import Scaffold.Render.Routes
import Scaffold.Schema.Build
import Scaffold.Validation

/-!
# References between generated files

The routes of an entity lead to methods that its controller has, and a controller or an observer
calls no method of its own that it does not have (`Render.references_closed`). This holds of every
schema that was built, with or without findings.
-/

namespace Scaffold
set_option autoImplicit false

/-! ## Names without spaces -/

namespace Naming

variable {isGap : Char → Bool} {piece text word : List Char} {b c d : Char}

theorem ofNat_ne_of_low {code : Nat} (low : b.toNat ≤ 32) (null : b ≠ '\x00') (above : 32 < code) :
    Char.ofNat code ≠ b := by
  rintro rfl
  by_cases valid : code.isValidChar
  · rw [Char.ofNat, dif_pos valid] at low
    have here : code ≤ 32 := low
    omega
  · rw [Char.ofNat, dif_neg valid] at null
    exact null (by decide)

/-- No capital form has a control character or a space in it, but that of this character. -/
theorem ne_of_mem_upperChar (low : b.toNat ≤ 32) (null : b ≠ '\x00') (other : c ≠ b)
    (mem : d ∈ Text.upperChar c) : d ≠ b := by
  unfold Text.upperChar at mem
  split at mem
  · rename_i code codes found
    have clear : ∀ p ∈ Text.LetterCase.toUpperMany, ∀ code ∈ p.2, 32 < code := by decide +kernel
    obtain ⟨code', isCode, rfl⟩ := List.mem_map.1 mem
    exact ofNat_ne_of_low low null (clear _ (List.mem_of_find?_eq_some found) code' isCode)
  · obtain rfl := List.mem_singleton.1 mem
    cases image : Text.LetterCase.Run.image? Text.LetterCase.toUpper c with
    | none => exact other
    | some form =>
      obtain ⟨run, found, rfl⟩ := Option.map_eq_some_iff.1 image
      have high : ∀ run ∈ Text.LetterCase.toUpper, 32 < (run.first : Int) + run.shift := by
        decide +kernel
      have above := high run (List.mem_of_find?_eq_some found)
      have within := List.find?_some found
      simp only [Bool.and_eq_true, decide_eq_true_eq] at within
      apply ofNat_ne_of_low low null
      rw [Int.ofNat_eq_natCast]
      omega

theorem not_mem_capitalized {name : String} (low : b.toNat ≤ 32) (null : b ≠ '\x00')
    (clear : b ∉ name.toList) : b ∉ (Text.capitalized name).toList := by
  unfold Text.capitalized
  split
  · simp
  · rename_i first rest chars
    rw [chars, List.mem_cons, not_or] at clear
    rw [String.toList_ofList, List.mem_append, not_or]
    exact ⟨fun mem => ne_of_mem_upperChar low null (Ne.symm clear.1) mem rfl, clear.2⟩

/-- The gaps are left out of the pieces. -/
theorem not_gap_of_mem_piecesBetween (h : word ∈ piecesBetween isGap piece text)
    (clear : ∀ c ∈ piece, isGap c = false) : ∀ c ∈ word, isGap c = false := by
  induction text generalizing piece with
  | nil =>
    simp only [piecesBetween] at h
    split at h
    · exact absurd h List.not_mem_nil
    · obtain rfl := List.mem_singleton.1 h
      exact fun c mem => clear c (List.mem_reverse.1 mem)
  | cons d rest ih =>
    have absent : ∀ c ∈ ([] : List Char), isGap c = false := by simp
    simp only [piecesBetween] at h
    split at h
    · split at h
      · exact ih h absent
      · rcases List.mem_cons.1 h with rfl | h
        · exact fun c mem => clear c (List.mem_reverse.1 mem)
        · exact ih h absent
    · rename_i inside
      refine ih h fun c mem => ?_
      rcases List.mem_cons.1 mem with rfl | mem
      · exact Bool.eq_false_iff.2 inside
      · exact clear c mem

/-- Words that are run together hold no white space of the lowest kind, as it stands between
them. -/
theorem not_mem_studly (low : b.toNat ≤ 32) (null : b ≠ '\x00') (blank : Text.isBlank b = true)
    (name : String) : b ∉ (studly name).toList := by
  intro mem
  rw [studly, String.toList_join, List.mem_flatMap] at mem
  obtain ⟨_, isIn, mem⟩ := mem
  obtain ⟨piece, isPiece, rfl⟩ := List.mem_map.1 isIn
  refine not_mem_capitalized low null ?_ mem
  rw [String.toList_ofList]
  intro inside
  have gapless := not_gap_of_mem_piecesBetween isPiece (by simp) b inside
  simp [blank] at gapless

theorem space_not_mem_studly (name : String) : ' ' ∉ (studly name).toList :=
  not_mem_studly (by decide) (by decide) (by decide) name

theorem newline_not_mem_studly (name : String) : '\n' ∉ (studly name).toList :=
  not_mem_studly (by decide) (by decide) (by decide) name

end Naming

namespace Render

variable {s : Schema} {e : Entity} {lines : List String} {line cls method name : String}

/-! ## Routes -/

/-- A line of the routes leads to this method of this class. -/
structure LeadsTo (line cls method : String) : Prop where
  cls_clear : ' ' ∉ cls.toList
  method_clear : ' ' ∉ method.toList
  line_eq : ∃ verb uri, line = routeLine verb uri cls method

/-- The class of an entity's controller. -/
def controllerClass (e : Entity) : String := s!"{controllers}\\{e.className}Controller::class"

/-- Where nothing like `c` follows, what stands before and behind `c` is determined. -/
theorem append_cons_inj_of_clear {α : Type} {c : α} {front front' back back' : List α}
    (clear : c ∉ back) (clear' : c ∉ back') (same : front ++ c :: back = front' ++ c :: back') :
    front = front' ∧ back = back' := by
  rcases List.append_eq_append_iff.1 same with ⟨between, rfl, rest⟩ | ⟨between, rfl, rest⟩
  · cases between with
    | nil => exact ⟨(List.append_nil _).symm, (List.cons.inj rest).2⟩
    | cons first more => exact absurd (by rw [(List.cons.inj rest).2]; simp) clear
  · cases between with
    | nil => exact ⟨List.append_nil _, (List.cons.inj rest).2.symm⟩
    | cons first more => exact absurd (by rw [(List.cons.inj rest).2]; simp) clear'

theorem routeLine_eq (verb uri cls method : String) :
    routeLine verb uri cls method = "Route::" ++ verb ++ "('" ++ uri ++ "', [" ++ cls ++ ", '" ++
      method ++ "']);" := by
  rfl

theorem toList_routeLine (verb uri cls method : String) : (routeLine verb uri cls method).toList =
    (("Route::" ++ verb ++ "('" ++ uri ++ "',").toList ++ ' ' :: '[' :: (cls.toList ++ [','])) ++
      ' ' :: '\'' :: (method.toList ++ ['\'', ']', ')', ';']) := by
  have beforeCls : "', [".toList = "',".toList ++ [' ', '['] := by decide
  have beforeMethod : ", '".toList = [',', ' ', '\''] := by decide
  have behind : "']);".toList = ['\'', ']', ')', ';'] := by decide
  simp only [routeLine_eq, String.toList_append, beforeCls, beforeMethod, behind, List.append_assoc,
    List.cons_append, List.nil_append]

/-- A line leads to one method of one class. -/
theorem LeadsTo.unique {cls' method' : String} (h : LeadsTo line cls method)
    (h' : LeadsTo line cls' method') : cls' = cls ∧ method' = method := by
  obtain ⟨clear, methodClear, verb, uri, rfl⟩ := h
  obtain ⟨clear', methodClear', verb', uri', same⟩ := h'
  have chars := congrArg String.toList same
  rw [toList_routeLine, toList_routeLine] at chars
  -- the last space of a line stands before the method, the one before it stands before the class
  obtain ⟨front, methods⟩ :=
    append_cons_inj_of_clear (by simpa using methodClear) (by simpa using methodClear') chars
  obtain ⟨-, classes⟩ :=
    append_cons_inj_of_clear (by simpa using clear) (by simpa using clear') front
  have isCls : cls.toList = cls'.toList := List.append_cancel_right (List.cons.inj classes).2
  have isMethod : method.toList = method'.toList :=
    List.append_cancel_right (List.cons.inj methods).2
  exact ⟨String.toList_inj.1 isCls.symm, String.toList_inj.1 isMethod.symm⟩

theorem leadsTo_routeLine (verb uri : String) (clear : ' ' ∉ method.toList) :
    LeadsTo (routeLine verb uri (controllerClass e) method) (controllerClass e) method where
  cls_clear := by
    simp only [controllerClass, controllers, toString, String.toList_append,
      List.mem_append, not_or]
    exact ⟨⟨⟨by decide, by decide⟩, Naming.space_not_mem_studly e.name⟩, by decide⟩
  method_clear := clear
  line_eq := ⟨verb, uri, rfl⟩

/-- Each route of an entity leads to a method that its controller has. -/
theorem exists_declared_of_mem_entityRoutes (s : Schema) (mem : line ∈ (entityRoutes e).tail) :
    ∃ method, Declares (controllerLines s e) method ∧ LeadsTo line (controllerClass e) method := by
  have writes := (tells_controllerLines s e).writes
  simp only [entityRoutes, List.cons_append, List.nil_append, List.tail_cons,
    List.mem_append] at mem
  rcases mem with mem | mem
  · obtain ⟨route, routed, rfl⟩ := List.mem_map.1 mem
    have clear : ' ' ∉ route.method.toList := by
      cases route <;> decide
    refine ⟨route.method, writes.declares ?_, leadsTo_routeLine _ _ clear⟩
    have own : route.method ∈ (RouteAction.all.filter e.routes.contains).map RouteAction.method :=
      List.mem_map_of_mem routed
    simp only [controllerOwn, List.mem_append, own, true_or, or_true]
  · obtain ⟨⟨name, field⟩, isFile, mem⟩ := List.mem_flatMap.1 mem
    have own : ∀ method ∈ ["upload" ++ Naming.studly name, "download" ++ Naming.studly name],
        method ∈ controllerOwn s e ++ stubMethods ((stagesOf e).flatMap (·.2)) := by
      intro method isMethod
      have inFiles : method ∈ fileMethodNames e := List.mem_flatMap.2 ⟨_, isFile, isMethod⟩
      simp only [controllerOwn, List.mem_append, inFiles, true_or, or_true]
    have clear :
        ∀ verb : String, ' ' ∉ verb.toList → ' ' ∉ (verb ++ Naming.studly name).toList := by
      intro verb verbClear
      rw [String.toList_append, List.mem_append, not_or]
      exact ⟨verbClear, Naming.space_not_mem_studly name⟩
    simp only [List.mem_cons, List.not_mem_nil, or_false] at mem
    rcases mem with rfl | rfl
    · exact ⟨_, writes.declares (own _ (by simp)),
        leadsTo_routeLine _ _ (clear "upload" (by decide))⟩
    · exact ⟨_, writes.declares (own _ (by simp)),
        leadsTo_routeLine _ _ (clear "download" (by decide))⟩

theorem mem_withoutTrailingBlanks (mem : line ∈ lines) (filled : line ≠ "") :
    line ∈ withoutTrailingBlanks lines := by
  obtain ⟨count, whole⟩ := exists_trailing lines
  rw [whole] at mem
  rcases List.mem_append.1 mem with mem | mem
  · exact mem
  · exact absurd (List.eq_of_mem_replicate mem) filled

/-- A text that begins with a solid one is not blank. -/
theorem not_isBlankText_append {front : String} (solid : Text.isBlankText front = false)
    (back : String) : Text.isBlankText (front ++ back) = false := by
  rw [Text.isBlankText] at solid
  rw [Text.isBlankText, String.toList_append, List.all_append, solid, Bool.false_and]

theorem not_isBlankText_of_mem_entityRoutes (mem : line ∈ entityRoutes e) :
    Text.isBlankText line = false := by
  have route (verb uri cls method : String) :
      Text.isBlankText (routeLine verb uri cls method) = false := by
    simp only [routeLine_eq, String.append_assoc]
    exact not_isBlankText_append (by decide) _
  simp only [entityRoutes, List.cons_append, List.nil_append, List.mem_cons,
    List.mem_append, List.mem_map, List.mem_flatMap, List.not_mem_nil, or_false] at mem
  rcases mem with rfl | ⟨action, -, rfl⟩ | ⟨field, -, rfl | rfl⟩
  · simp only [toString, String.append_assoc]
    exact not_isBlankText_append (by decide) _
  · exact route _ _ _ _
  · exact route _ _ _ _
  · exact route _ _ _ _

/-- Every line of an entity's routes is in the section, perhaps indented. -/
theorem exists_mem_routesSection (mem : e ∈ s.entities.values) (routed : e.hasRoutes = true)
    (isRoute : line ∈ entityRoutes e) :
    ∃ width, Text.repeated ' ' width ++ line ∈ routesSection s := by
  have solid := not_isBlankText_of_mem_entityRoutes isRoute
  have filled : line ≠ "" := by
    rintro rfl
    exact absurd solid (by decide)
  have isDeclared : line ∈ declaredRoutes s := by
    refine mem_withoutTrailingBlanks
      (List.mem_append_left _ (List.mem_flatMap.2 ⟨e, ?_, List.mem_append_left _ isRoute⟩)) filled
    exact List.mem_filter.2 ⟨mem, routed⟩
  by_cases plain : (s.middlewares.isEmpty || (declaredRoutes s).isEmpty) = true
  · simp only [routesSection, if_pos plain]
    refine ⟨0, mem_withoutTrailingBlanks (List.mem_append_right _ ?_) ?_⟩
    · simpa [Text.repeated] using isDeclared
    · simpa [Text.repeated] using filled
  · simp only [routesSection, if_neg plain]
    refine ⟨4, mem_withoutTrailingBlanks
      (List.mem_append_right _ (List.mem_append_left _ (List.mem_append_right _ ?_))) ?_⟩
    · refine List.mem_map.2 ⟨line, isDeclared, ?_⟩
      rw [solid, if_neg Bool.false_ne_true]
    · simp [filled]

/-! ## Calls -/

theorem mem_stagesOf {stage : String × List Action} :
    stage ∈ stagesOf e ↔ stage.1 ∈ hookStages ∧ e.hooks.get? stage.1 = some stage.2 := by
  obtain ⟨stage, actions⟩ := stage
  simp [stagesOf]

/-- The controller has a handler for each of its hooks. -/
theorem handlersOf_subset (stages : List String) (known : stages ⊆ hookStages) :
    handlersOf e stages ⊆ (stagesOf e).map fun stage => handlerName stage.1 := by
  intro name mem
  obtain ⟨stage, isHandled, rfl⟩ := List.mem_map.1 mem
  obtain ⟨isStage, has⟩ := List.mem_filter.1 isHandled
  obtain ⟨actions, held⟩ := Option.isSome_iff_exists.1 has
  exact List.mem_map.2 ⟨(stage, actions), mem_stagesOf.2 ⟨known isStage, held⟩, rfl⟩

/-- What the method of a route calls is that method itself or a handler. -/
theorem callsOf_subset (route : RouteAction) :
    callsOf e route ⊆ route.method :: (stagesOf e).map fun stage => handlerName stage.1 := by
  have handled (stage : String) (known : [stage] ⊆ hookStages) :
      handlersOf e [stage] ⊆ route.method :: (stagesOf e).map fun stage => handlerName stage.1 :=
    List.subset_cons_of_subset _ (handlersOf_subset [stage] known)
  cases route with
  | list | display => exact List.nil_subset _
  | create => exact List.append_subset.2 ⟨handled _ (by decide), handled _ (by decide)⟩
  | update =>
    have itself : ["update"] ⊆ RouteAction.update.method :: (stagesOf e).map fun stage =>
        handlerName stage.1 := by
      simp [RouteAction.method]
    exact List.append_subset.2 ⟨List.append_subset.2 ⟨handled _ (by decide), itself⟩,
      handled _ (by decide)⟩
  | delete => exact List.append_subset.2 ⟨handled _ (by decide), handled _ (by decide)⟩

/-- Each custom action has its stub. -/
theorem customMethods_subset (groups : List (String × List Action)) :
    (groups.flatMap fun group => customMethods group.2) ⊆ stubMethods (groups.flatMap (·.2)) := by
  intro name mem
  obtain ⟨group, isGroup, isCalled⟩ := List.mem_flatMap.1 mem
  obtain ⟨action, isCustom, rfl⟩ := List.mem_map.1 isCalled
  obtain ⟨isAction, custom⟩ := List.mem_filter.1 isCustom
  apply mem_stubMethods.2
  exact List.mem_map_of_mem
    (List.mem_filter.2 ⟨List.mem_flatMap.2 ⟨group, isGroup, isAction⟩, custom⟩)

theorem controllerCalls_subset (s : Schema) (e : Entity) :
    controllerCalls e ⊆ controllerOwn s e ++ stubMethods ((stagesOf e).flatMap (·.2)) := by
  refine List.append_subset.2
    ⟨?_, List.subset_append_of_subset_right _ (customMethods_subset (stagesOf e))⟩
  apply List.subset_append_of_subset_left
  intro name mem
  obtain ⟨route, routed, isCalled⟩ := List.mem_flatMap.1 mem
  rcases List.mem_cons.1 (callsOf_subset route isCalled) with rfl | isHandler
  · have own : route.method ∈ (RouteAction.all.filter e.routes.contains).map RouteAction.method :=
      List.mem_map_of_mem routed
    simp only [controllerOwn, List.mem_append, own, true_or, or_true]
  · exact List.mem_append_right _ isHandler

/-! ## Both -/

/-- What the routes of an entity, its controller and its observer refer to is there. -/
structure ReferencesClosed (s : Schema) (e : Entity) : Prop where
  pages : controllerPage s e = page (controllerLines s e) ∧ observerPage e = page (observerLines e)
  required : e.hasRoutes = true → Artifact.controllerPath e ∈ s.requiredArtifacts
  /-- The lines after the comment are in the section, and each leads to one method of one class,
  which is that of the controller. -/
  routes : e.hasRoutes = true → ∀ line ∈ (entityRoutes e).tail,
    (∃ width, Text.repeated ' ' width ++ line ∈ routesSection s) ∧
    ∃ method, Declares (controllerLines s e) method ∧
      ∀ cls name, LeadsTo line cls name ↔ cls = controllerClass e ∧ name = method
  controller : ∀ line ∈ controllerLines s e, ∀ name, Calls line name →
    Declares (controllerLines s e) name
  observer : ∀ line ∈ observerLines e, ∀ name, Calls line name → Declares (observerLines e) name
  /-- Hooks are run by their handlers, and custom actions by their stubs, whatever names they
  have. -/
  handlers : ∀ stage ∈ hookStages, e.hooks.has stage = true →
    Declares (controllerLines s e) (handlerName stage)
  hooked : ∀ stage ∈ stagesOf e, ∀ name ∈ customMethods stage.2, Declares (controllerLines s e) name
  observed : ∀ event ∈ eventsOf e, ∀ name ∈ customMethods event.2, Declares (observerLines e) name

/-- The routes of every entity of a schema lead to methods that its controller has, and what the
controller and the observer call they have too. -/
theorem references_closed (mem : e ∈ s.entities.values) : ReferencesClosed s e := by
  have controller := tells_controllerLines s e
  have observer := tells_observerLines e
  constructor
  case pages => exact ⟨controllerPage_eq s e, observerPage_eq e⟩
  case required =>
    intro routed
    apply mem_distinctSorted.2
    have own : Artifact.controllerPath e ∈ s.entities.values.flatMap Artifact.ofEntity := by
      refine List.mem_flatMap.2 ⟨e, mem, ?_⟩
      simp [Artifact.ofEntity, routed]
    simp [own]
  case routes =>
    intro routed line isRoute
    obtain ⟨method, declares, leads⟩ := exists_declared_of_mem_entityRoutes s isRoute
    refine ⟨exists_mem_routesSection mem routed (List.mem_of_mem_tail isRoute), method, declares,
      fun cls name => ?_⟩
    constructor
    · exact leads.unique
    · rintro ⟨rfl, rfl⟩
      exact leads
  case controller => exact controller.declares (controllerCalls_subset s e)
  case observer =>
    exact observer.declares
      (List.subset_append_of_subset_right _ (customMethods_subset (eventsOf e)))
  case handlers =>
    intro stage known has
    refine controller.writes.declares (List.mem_append_left _ (List.mem_append_right _ ?_))
    refine handlersOf_subset [stage] (by simpa using known) ?_
    simp [handlersOf, has]
  case hooked =>
    intro stage isStage name isCustom
    have stub := customMethods_subset (stagesOf e) (List.mem_flatMap.2 ⟨stage, isStage, isCustom⟩)
    exact controller.writes.declares (List.mem_append_right _ stub)
  case observed =>
    intro event isEvent name isCustom
    have stub := customMethods_subset (eventsOf e) (List.mem_flatMap.2 ⟨event, isEvent, isCustom⟩)
    exact observer.writes.declares (List.mem_append_right _ stub)

/-- A document with one model that has two routes, a field for files, and an action of its own at a
hook and an event. -/
def hookedDocument : Json.Members :=
  [("meta", .object []),
    ("models", .object [("Tag",
      .object [("fields", .object [("label", .string "string"), ("photo", .string "file")]),
        ("routes", .array [.string "list", .string "create"]),
        ("hooks", .object [("beforeCreate", .array [.string "sendMail"])]),
        ("observers", .object [("created", .array [.string "tell_all"])])])])]

theorem references_closed_hooked :
    ∃ s e, Schema.build hookedDocument = .ok s ∧ s.findings.isValid = true ∧
    e ∈ s.entities.values ∧ e.hasRoutes = true ∧ (entityRoutes e).tail.length = 4 ∧
    (stagesOf e).flatMap (fun stage => customMethods stage.2) = ["sendMail"] ∧
    (eventsOf e).flatMap (fun event => customMethods event.2) = ["tellAll"] ∧
    ReferencesClosed s e := by
  have checked : succeeds (Schema.build hookedDocument) (fun s => s.findings.isValid &&
      (s.entities.get? "Tag").any fun e =>
      e.hasRoutes && (entityRoutes e).tail.length == 4 &&
        (stagesOf e).flatMap (fun stage => customMethods stage.2) == ["sendMail"] &&
        (eventsOf e).flatMap (fun event => customMethods event.2) == ["tellAll"]) = true := by
    decide +kernel
  obtain ⟨s, built, holds⟩ := succeeds_eq_true.1 checked
  simp only [Bool.and_eq_true, Option.any_eq_true, beq_iff_eq] at holds
  obtain ⟨valid, e, found, ⟨⟨routed, four⟩, hooked⟩, observed⟩ := holds
  have mem : e ∈ s.entities.values := OrderedMap.mem_values.2 ⟨_, found⟩
  exact ⟨s, e, built, valid, mem, routed, four, hooked, observed, references_closed mem⟩

end Render
end Scaffold
