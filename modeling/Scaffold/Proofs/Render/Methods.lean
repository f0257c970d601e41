import Scaffold.Proofs.Render.Lines
import Scaffold.Render.Controller
import Scaffold.Render.Factory
import Scaffold.Render.Model
import Scaffold.Render.Observer
import Scaffold.Render.Policy

/-!
# Methods of the generated classes

Which methods each of the generated classes has, in order, and which of its own a controller or an
observer calls. The proofs follow the functions that write the lines.
-/

namespace Scaffold.Render
set_option autoImplicit false

open Text (NumeralError)

variable {lines names calls : List String} {line name heading : String}

theorem opens_public (h : ("    public function " ++ name ++ "(").toList <+: line.toList) :
    Opens line name :=
  ⟨_, List.mem_cons_self .., startsWith_iff.2 h⟩

theorem opens_protected (h : ("    protected function " ++ name ++ "(").toList <+: line.toList) :
    Opens line name :=
  ⟨_, List.mem_cons_of_mem _ (List.mem_singleton_self _), startsWith_iff.2 h⟩

theorem areInert_opening (space : String) (imports : List String) :
    AreInert (opening space imports) := by
  simp only [opening, uses, areInert_append, areInert_cons, areInert_nil, and_true, areInert_map,
    String.append_assoc]
  refine ⟨⟨isInert_ofList rfl, isInert_empty, isInert_append rfl _, isInert_empty⟩, fun name _ =>
    isInert_append rfl _⟩

/-! ## Controllers -/

theorem tells_constructorLines (s : Schema) (e : Entity) :
    Tells (constructorLines s e) (if (middlewareLines s e).isEmpty then []
      else ["__construct"]) [] := by
  have inert : AreInert (middlewareLines s e) := by
    simp only [middlewareLines, areInert_map, String.append_assoc]
    exact fun entry _ => isInert_append rfl _
  have opens : Opens ("    " ++ "public function __construct()") "__construct" :=
    opens_public (by simp)
  unfold constructorLines
  dsimp only
  split
  · exact areInert_nil.tellsNothing
  · exact (tells_method opens (isSilent_ofList rfl) inert.tellsNothing).between areInert_nil
      (by simp [isInert_empty])

theorem areInert_filterLines (filter : IndexFilter) : AreInert (filterLines filter) := by
  unfold filterLines
  simp only [areInert_append, areInert_map, String.append_assoc]
  refine ⟨⟨fun entry _ => isInert_append rfl _, ?_⟩, ?_⟩
  · split
    · simp only [areInert_cons, areInert_nil, and_true]
      exact isInert_append rfl _
    · exact areInert_nil
  · split
    · exact areInert_nil
    · simp only [areInert_cons, areInert_nil, and_true]
      refine ⟨isSilent_of_mem '[' ?_ (by decide), isHeading_append rfl _⟩
      simp [Php.array]

theorem areInert_searchLines (columns : List String) : AreInert (searchLines columns) := by
  cases columns with
  | nil => exact areInert_nil
  | cons first more =>
    simp only [searchLines, areInert_append, areInert_cons, areInert_nil, and_true, areInert_map,
      String.append_assoc]
    have like (call name : String) :
        IsInert (toString "                $q->" ++ (toString call ++ (toString "('" ++
          (toString name ++ toString "', 'like', \"%\x7b$search\x7d%\");")))) := by
      refine ⟨isSilent_of_mem '%' ?_ (by decide), isHeading_append rfl _⟩
      simp [toString]
    exact ⟨⟨⟨isInert_empty, isInert_ofList rfl, isInert_ofList rfl⟩, like _ _, fun name _ =>
      like _ _⟩, isInert_ofList rfl, isInert_ofList rfl⟩

theorem tells_listMethod (e : Entity) : Tells (listMethod e) ["index"] [] := by
  have filters : AreInert ((e.filters.map filterLines).getD []) := by
    cases e.filters with
    | none => exact areInert_nil
    | some filter => exact areInert_filterLines filter
  have opens : Opens ("    " ++ "public function index(Request $request): JsonResponse") "index" :=
    opens_public (by simp)
  refine tells_method opens (isSilent_ofList rfl) (AreInert.tellsNothing ?_)
  simp only [areInert_append, areInert_cons, areInert_nil, and_true, String.append_assoc, filters,
    areInert_searchLines]
  refine ⟨?_, isInert_empty, ?_⟩
  · refine ⟨isSilent_of_mem ':' ?_ (by decide), isHeading_append rfl _⟩
    simp [toString]
  · exact isInert_append rfl _

theorem tells_displayMethod (e : Entity) : Tells (displayMethod e) ["show"] [] := by
  refine tells_method (opens_public (by simp [toString])) ?_ (AreInert.tellsNothing ?_)
  · simp only [String.append_assoc]
    exact isSilent_append rfl _
  · simp only [areInert_cons, areInert_nil, and_true, String.append_assoc]
    exact isInert_append rfl _

theorem areInert_checkLines (e : Entity) (forUpdate : Bool) :
    AreInert (checkLines e forUpdate) := by
  simp only [checkLines, areInert_append, areInert_cons, areInert_nil, and_true, areInert_map,
    String.append_assoc]
  exact ⟨⟨isInert_ofList rfl, fun entry _ => isInert_append rfl _⟩, isInert_ofList rfl⟩

/-- The method that runs the actions of a stage. -/
def handlerName (stage : String) : String := "handle" ++ Text.capitalized stage

/-- The handlers among those of the given stages that an entity has. -/
def handlersOf (e : Entity) (stages : List String) : List String :=
  (stages.filter e.hooks.has).map handlerName

theorem tells_hookCall (e : Entity) {stage : String}
    (isCall : Tells [line] [] [handlerName stage]) :
    Tells (hookCall e stage line) [] (handlersOf e [stage]) := by
  unfold hookCall handlersOf
  cases held : e.hooks.has stage with
  | false => simpa [held] using areInert_nil.tellsNothing
  | true => simpa [held] using isCall

/-- The call of a handler that takes the row. -/
theorem tells_rowCall (e : Entity) {stage : String} (called : String)
    (named : handlerName stage = called)
    (whole : line.toList = ("        $this->" ++ called ++ "($" ++ e.variableName ++ ");").toList) :
    Tells [line] [] [handlerName stage] := by
  subst named
  obtain rfl := String.toList_inj.1 whole
  refine tells_call "        $this" ("$" ++ e.variableName ++ ");") ?_ (by simp)
  simp only [String.append_assoc]
  exact isHeading_append rfl _

theorem tells_createMethod (e : Entity) :
    Tells (createMethod e) ["store"]
      (handlersOf e ["beforeCreate"] ++ handlersOf e ["afterCreate"]) := by
  have before : Tells ["        $validated = $this->handleBeforeCreate($validated);"] []
      [handlerName "beforeCreate"] := by
    have name : handlerName "beforeCreate" = "handleBeforeCreate" := by decide
    exact tells_call "        $validated = $this" "$validated);" (by decide) (by simp [name])
  have after : Tells [s!"        $this->handleAfterCreate(${e.variableName});"] []
    [handlerName "afterCreate"] :=
    tells_rowCall e "handleAfterCreate" (by decide) (by simp [toString])
  have check : AreInert (checkLines e false ++ [""]) := by
    simp [areInert_checkLines, isInert_empty]
  have made : AreInert [s!"        ${e.variableName} = {e.className}::create($validated);"] := by
    simp only [areInert_cons, areInert_nil, and_true, String.append_assoc]
    refine ⟨isSilent_of_mem ':' ?_ (by decide), isHeading_append rfl _⟩
    simp [toString]
  have returned : AreInert ["", s!"        return response()->json(${e.variableName}, 201);"] := by
    simp only [areInert_cons, areInert_nil, and_true, String.append_assoc]
    exact ⟨isInert_empty, isInert_append rfl _⟩
  refine tells_method (opens_public (by simp)) (isSilent_ofList rfl) ?_
  have inside :=
    (((check.tellsNothing.append (tells_hookCall e before)).append made.tellsNothing).append
      (tells_hookCall e after)).append returned.tellsNothing
  exact inside.mono (by simp)

theorem tells_updateMethod (e : Entity) :
    Tells (updateMethod e) ["update"] (handlersOf e ["beforeUpdate"] ++ ["update"] ++ handlersOf e
      ["afterUpdate"]) := by
  have before :
      Tells [s!"        $validated = $this->handleBeforeUpdate($validated, ${e.variableName});"] []
      [handlerName "beforeUpdate"] := by
    have name : handlerName "beforeUpdate" = "handleBeforeUpdate" := by decide
    refine tells_call "        $validated = $this" ("$validated, $" ++ e.variableName ++ ");") ?_
      (by simp [name, toString])
    simp only [String.append_assoc]
    exact isHeading_append rfl _
  have after : Tells [s!"        $this->handleAfterUpdate(${e.variableName});"] []
    [handlerName "afterUpdate"] :=
    tells_rowCall e "handleAfterUpdate" (by decide) (by simp [toString])
  have check : AreInert (checkLines e true ++ [""]) := by
    simp [areInert_checkLines, isInert_empty]
  -- of an entity whose row is `$this`, this line is a call of the method itself
  have changed : Tells [s!"        ${e.variableName}->update($validated);"] [] ["update"] := by
    refine tells_call ("        $" ++ e.variableName) "$validated);" ?_ (by simp [toString])
    simp only [String.append_assoc]
    exact isHeading_append rfl _
  have returned : AreInert ["", s!"        return response()->json(${e.variableName});"] := by
    simp only [areInert_cons, areInert_nil, and_true, String.append_assoc]
    exact ⟨isInert_empty, isInert_append rfl _⟩
  refine tells_method (opens_public (by simp [toString])) ?_ ?_
  · simp only [String.append_assoc]
    exact isSilent_append rfl _
  · have inside :=
      (((check.tellsNothing.append (tells_hookCall e before)).append changed).append
        (tells_hookCall e after)).append
      returned.tellsNothing
    exact inside.mono (by simp)

theorem tells_deleteMethod (e : Entity) :
    Tells (deleteMethod e) ["destroy"]
      (handlersOf e ["beforeDelete"] ++ handlersOf e ["afterDelete"]) := by
  have before : Tells [s!"        $this->handleBeforeDelete(${e.variableName});"] []
    [handlerName "beforeDelete"] :=
    tells_rowCall e "handleBeforeDelete" (by decide) (by simp [toString])
  have after : Tells [s!"        $this->handleAfterDelete(${e.variableName});"] []
    [handlerName "afterDelete"] :=
    tells_rowCall e "handleAfterDelete" (by decide) (by simp [toString])
  have deleted : AreInert [s!"        ${e.variableName}->delete();"] := by
    simp only [areInert_cons, areInert_nil, and_true]
    refine ⟨isSilent_of_noArguments ("        $" ++ e.variableName) "delete"
      (by simp [toString]), ?_⟩
    simp only [String.append_assoc]
    exact isHeading_append rfl _
  have returned : AreInert ["", "        return response()->json(null, 204);"] := by
    simp only [areInert_cons, areInert_nil, and_true]
    exact ⟨isInert_empty, isInert_ofList rfl⟩
  refine tells_method (opens_public (by simp [toString])) ?_ ?_
  · simp only [String.append_assoc]
    exact isSilent_append rfl _
  · have inside :=
      (((tells_hookCall e before).append deleted.tellsNothing).append
        (tells_hookCall e after)).append
      returned.tellsNothing
    exact inside.mono (by simp)

/-- What the method of a route may call: the handlers around it, and `update` calls itself. -/
def callsOf (e : Entity) : RouteAction → List String
  | .list | .display => []
  | .create => handlersOf e ["beforeCreate"] ++ handlersOf e ["afterCreate"]
  | .update => handlersOf e ["beforeUpdate"] ++ ["update"] ++ handlersOf e ["afterUpdate"]
  | .delete => handlersOf e ["beforeDelete"] ++ handlersOf e ["afterDelete"]

theorem tells_routeMethod (e : Entity) (route : RouteAction) :
    Tells (routeMethod e route) [route.method] (callsOf e route) := by
  cases route with
  | list => exact tells_listMethod e
  | display => exact tells_displayMethod e
  | create => exact tells_createMethod e
  | update => exact tells_updateMethod e
  | delete => exact tells_deleteMethod e

theorem areInert_uploadBody (e : Entity) (name : String) (field : Field) :
    AreInert (uploadBody e name field) := by
  have setting (rest : String) :
      IsInert (toString "        $" ++
        (toString e.variableName ++ (toString "->update(['" ++ rest))) := by
    refine ⟨isSilent_of_mem '[' ?_ (by decide), isHeading_append rfl _⟩
    simp [toString]
  unfold uploadBody
  dsimp only
  split
  · simp only [areInert_cons, areInert_nil, and_true, String.append_assoc]
    refine ⟨isInert_ofList rfl, isInert_ofList rfl, isInert_ofList rfl, isInert_ofList rfl,
      isInert_empty, ?_, isInert_ofList rfl, isInert_append rfl _, isInert_ofList rfl, setting _⟩
    refine ⟨isSilent_of_mem '[' ?_ (by decide), isHeading_append rfl _⟩
    simp [toString]
  · simp only [areInert_cons, areInert_nil, and_true, String.append_assoc]
    exact ⟨isInert_ofList rfl, isInert_empty, isInert_append rfl _, isInert_append rfl _,
      isInert_ofList rfl, isInert_append rfl _, setting _⟩

theorem areInert_downloadBody (e : Entity) (name : String) (field : Field) :
    AreInert (downloadBody e name field) := by
  unfold downloadBody
  dsimp only
  split
  · simp only [areInert_cons, areInert_nil, and_true, String.append_assoc]
    refine ⟨?_, isInert_append rfl _, isInert_ofList rfl, isInert_empty, isInert_ofList rfl⟩
    refine ⟨isSilent_of_mem '[' ?_ (by decide), isHeading_append rfl _⟩
    simp [toString]
  · simp only [areInert_cons, areInert_nil, and_true, String.append_assoc]
    exact ⟨isInert_append rfl _, isInert_ofList rfl, isInert_ofList rfl, isInert_empty,
      isInert_append rfl _⟩

theorem tells_fileMethods (e : Entity) (name : String) (field : Field) :
    Tells (fileMethods e name field) ["upload" ++ Naming.studly name,
      "download" ++ Naming.studly name] [] := by
  have returned : AreInert ["", s!"        return response()->json(${e.variableName});"] := by
    simp only [areInert_cons, areInert_nil, and_true, String.append_assoc]
    exact ⟨isInert_empty, isInert_append rfl _⟩
  have upload : Tells (method
      s!"public function upload{Naming.studly name}(Request $request, {e.className} ${e.variableName}): JsonResponse"
      (uploadBody e name field ++ ["", s!"        return response()->json(${e.variableName});"]))
      ["upload" ++ Naming.studly name] [] := by
    refine tells_method (opens_public (by simp [toString])) ?_ (AreInert.tellsNothing ?_)
    · simp only [String.append_assoc]
      exact isSilent_append rfl _
    · exact areInert_append.2 ⟨areInert_uploadBody e name field, returned⟩
  have download : Tells (method
      s!"public function download{Naming.studly name}({e.className} ${e.variableName})"
      (downloadBody e name field)) ["download" ++ Naming.studly name] [] := by
    refine tells_method (opens_public (by simp [toString])) ?_
      (areInert_downloadBody e name field).tellsNothing
    simp only [String.append_assoc]
    exact isSilent_append rfl _
  exact ((upload.append tells_gap).append download).append tells_gap

/-! ## Actions -/

/-- The actions that are written by the project's author. -/
def customActions (actions : List Action) : List Action := actions.filter (·.builtin?.isNone)

theorem areSilent_whenever {condition : String} (inside : AreSilent lines) :
    AreSilent (whenever condition lines) := by
  have moved : AreSilent (lines.map ("    " ++ ·)) := by
    intro line mem
    obtain ⟨inner, isMember, rfl⟩ := List.mem_map.1 mem
    exact (inside inner isMember).indented 4
  simp only [whenever, areSilent_append, areSilent_cons, areSilent_nil, and_true,
    String.append_assoc, moved]
  exact ⟨isSilent_append rfl _, isSilent_ofList rfl⟩

theorem areSilent_cleanupLines (site : HookSite) (name : String) (field : Field) :
    AreSilent (cleanupLines site name field) := by
  unfold cleanupLines
  dsimp only
  split
  · apply areSilent_whenever
    simp only [areSilent_cons, areSilent_nil, and_true, String.append_assoc]
    exact isSilent_append rfl _
  · apply areSilent_whenever
    simp only [areSilent_cons, areSilent_nil, and_true, String.append_assoc]
    exact isSilent_append rfl _

/-- No built-in action calls a method of the class that it runs in. -/
theorem areSilent_builtinLines (site : HookSite) (e : Entity) (message : Option String)
    (action : BuiltinAction) : AreSilent (builtinLines site e message action) := by
  cases action with
  | log =>
    simp only [builtinLines, areSilent_cons, areSilent_nil, and_true, String.append_assoc]
    exact isSilent_append rfl _
  | sanitizeInput =>
    simp only [builtinLines]
    split
    · simp only [areSilent_cons, areSilent_nil, and_true]
      exact isSilent_of_mem '?' (by simp [toString]) (by decide)
    · simp only [areSilent_cons, areSilent_nil, and_true, String.append_assoc]
      exact ⟨isSilent_append rfl _, isSilent_ofList rfl,
        isSilent_of_mem '\x7b' (by simp [toString]) (by decide),
        isSilent_ofList rfl, isSilent_ofList rfl⟩
  | generateUuid =>
    simp only [builtinLines]
    split
    · simp only [areSilent_cons, areSilent_nil, and_true]
      exact isSilent_of_mem '[' (by simp [toString]) (by decide)
    · apply areSilent_whenever
      simp only [areSilent_cons, areSilent_nil, and_true]
      exact isSilent_of_mem ':' (by simp [toString]) (by decide)
  | clearCache =>
    simp only [builtinLines, areSilent_cons, areSilent_nil, and_true, String.append_assoc]
    exact isSilent_append rfl _
  | cleanupFiles =>
    simp only [builtinLines]
    split
    · simp only [areSilent_cons, areSilent_nil, and_true]
      exact isSilent_ofList rfl
    · rw [areSilent_flatMap]
      intro entry _
      exact areSilent_cleanupLines site entry.1 entry.2
  | logActivity =>
    simp only [builtinLines, areSilent_cons, areSilent_nil, and_true, String.append_assoc]
    exact ⟨isSilent_append rfl _, isSilent_append rfl _, isSilent_append rfl _,
      isSilent_append rfl _, isSilent_ofList rfl⟩
  | moveChildrenToParent =>
    apply areSilent_whenever
    simp only [areSilent_cons, areSilent_nil, and_true, String.append_assoc]
    exact ⟨isSilent_of_mem '[' (by simp [toString]) (by decide), isSilent_append rfl _,
      isSilent_ofList rfl⟩
  | clearProjectCache =>
    apply areSilent_whenever
    simp only [areSilent_cons, areSilent_nil, and_true, String.append_assoc]
    exact isSilent_append rfl _
  | updateProjectProgress =>
    apply areSilent_whenever
    simp only [areSilent_cons, areSilent_nil, and_true]
    exact isSilent_of_noArguments (site.subject ++ "->project") "updateProgress"
      (by simp [toString])
  | clearProjectsCache =>
    simp only [builtinLines, areSilent_cons, areSilent_nil, and_true]
    exact isSilent_ofList rfl

/-- The methods of the custom actions among those given. -/
def customMethods (actions : List Action) : List String := (customActions actions).map customMethod

/-- An action calls a method of its class only if it is a custom one, and then its own. -/
theorem calls_actionLines (site : HookSite) (e : Entity) (action : Action) :
    ∀ line ∈ actionLines site e action, ∀ width name, Calls (Text.repeated ' ' width ++ line) name →
      name ∈ customMethods [action] := by
  intro line mem width name isCall
  unfold actionLines at mem
  split at mem
  · rename_i custom
    obtain rfl := List.mem_singleton.1 mem
    have called : name = customMethod action :=
      isCall.name_eq (Text.repeated ' ' width ++ "$this") (site.subject ++ ");")
        (by simp [toString])
    simp [customMethods, customActions, custom, called]
  · split at mem
    · obtain rfl := List.mem_singleton.1 mem
      refine absurd isCall (isSilent_of_mem '/' ?_ (by decide) width name)
      simp
    · exact absurd isCall (areSilent_builtinLines site e action.message _ line mem width name)

theorem calls_actions (site : HookSite) (e : Entity) (actions : List Action) :
    ∀ line ∈ actions.flatMap (actionLines site e), ∀ width name,
    Calls (Text.repeated ' ' width ++ line) name →
      name ∈ customMethods actions := by
  intro line mem width name isCall
  obtain ⟨action, isAction, mem⟩ := List.mem_flatMap.1 mem
  have called := calls_actionLines site e action line mem width name isCall
  simp only [customMethods, customActions, List.mem_map, List.mem_filter,
    List.mem_singleton] at called ⊢
  obtain ⟨_, ⟨rfl, custom⟩, rfl⟩ := called
  exact ⟨_, ⟨isAction, custom⟩, rfl⟩

/-- The methods for which an empty body is written. -/
def stubMethods (actions : List Action) : List String :=
  (firstPerMethod [] (customActions actions)).map customMethod

/-- One empty body is written for each method that is not there yet. -/
theorem mem_firstPerMethod {name : String} (seen : List String) (actions : List Action) :
    name ∈ (firstPerMethod seen actions).map customMethod ↔ name ∈ actions.map customMethod ∧
    name ∉ seen := by
  induction actions generalizing seen with
  | nil => simp [firstPerMethod]
  | cons action rest ih =>
    simp only [firstPerMethod, List.contains_iff_mem, List.map_cons, List.mem_cons]
    split
    · rename_i known
      rw [ih]
      constructor
      · exact fun h => ⟨.inr h.1, h.2⟩
      · rintro ⟨rfl | mem, new⟩
        · exact absurd known new
        · exact ⟨mem, new⟩
    · rename_i new
      rw [List.map_cons, List.mem_cons, ih, List.mem_cons, not_or]
      constructor
      · rintro (rfl | ⟨mem, -, unseen⟩)
        · exact ⟨.inl rfl, new⟩
        · exact ⟨.inr mem, unseen⟩
      · rintro ⟨rfl | mem, unseen⟩
        · exact .inl rfl
        · by_cases same : name = customMethod action
          · exact .inl same
          · exact .inr ⟨mem, same, unseen⟩

theorem mem_stubMethods {actions : List Action} :
    name ∈ stubMethods actions ↔ name ∈ customMethods actions := by
  rw [stubMethods, mem_firstPerMethod, customMethods]
  simp

theorem tells_stubLines (actions : List Action) (parameter heading : String) :
    Tells (stubLines actions parameter heading) (stubMethods actions) [] := by
  have each (action : Action) : Tells ("" :: remark (heading ++ " " ++ action.name ++ ".") ++
      method s!"protected function {customMethod action}({parameter}): void" ["        //"])
        [customMethod action] [] := by
    have before : AreInert ("" :: remark (heading ++ " " ++ action.name ++ ".")) :=
      areInert_cons.2 ⟨isInert_empty, areInert_remark _⟩
    have body : AreInert ["        //"] := by
      simp only [areInert_cons, areInert_nil, and_true]
      exact isInert_ofList rfl
    refine before.tellsNothing.append
      (tells_method (opens_protected (by simp [toString])) ?_ body.tellsNothing)
    simp only [String.append_assoc]
    exact isSilent_append rfl _
  rw [stubMethods, List.map_eq_flatMap]
  exact .flatMap_nil fun action _ => each action

/-! ## Whole classes -/

theorem tells_handlerMethod (e : Entity) (stage : String) (actions : List Action) :
    Tells (handlerMethod e stage actions) [handlerName stage] (customMethods actions) := by
  have opens : Opens ("    " ++ handlerHeading e stage) (handlerName stage) := by
    unfold handlerHeading
    split <;> exact opens_protected (by simp [handlerName, toString])
  have silent : IsSilent (handlerHeading e stage) := by
    unfold handlerHeading
    split <;> simp only [String.append_assoc] <;> exact isSilent_append rfl _
  have tail (onData : Bool) : AreSilent (if onData then ["", "return $data;"] else []) := by
    cases onData with
    | false => exact areSilent_nil
    | true =>
      simp only [if_true, areSilent_cons, areSilent_nil, and_true]
      exact ⟨isSilent_empty, isSilent_ofList rfl⟩
  have body (site : HookSite)
      (onData : Bool) : Tells (Php.indent 2 (actions.flatMap (actionLines site e) ++
        if onData then ["", "return $data;"] else [])) [] (customMethods actions) := by
    refine tells_indent fun line mem width name isCall => ?_
    rcases List.mem_append.1 mem with mem | mem
    · exact calls_actions site e actions line mem width name isCall
    · exact absurd isCall (tail onData line mem width name)
  refine ((tells_method opens silent
    (body _ (stage == "beforeCreate" || stage == "beforeUpdate"))).append tells_gap).mono ?_
  simp

/-- The lines of a controller. -/
def controllerLines (s : Schema) (e : Entity) : List String :=
  let cls := e.className
  let actions := (stagesOf e).flatMap (·.2)
  let imports :=
    [s!"App\\Models\\{cls}", "Illuminate\\Http\\JsonResponse", "Illuminate\\Http\\Request"] ++
    actionImports actions ++
    if e.fileFields.isEmpty then [] else ["Illuminate\\Support\\Facades\\Storage"]
  let body := constructorLines s e ++
    ((RouteAction.all.filter e.routes.contains).flatMap fun route => routeMethod e route ++ [""]) ++
    (e.fileFields.flatMap fun (name, field) => fileMethods e name field) ++
    ((stagesOf e).flatMap fun (stage, actions) => handlerMethod e stage actions) ++
    stubLines actions "mixed $subject" "Custom hook action"
  withoutTrailingBlanks (opening "App\\Http\\Controllers" imports ++
    ["", s!"class {cls}Controller extends Controller", "\x7b"] ++ body) ++ ["\x7d"]

theorem controllerPage_eq (s : Schema) (e : Entity) :
    controllerPage s e = page (controllerLines s e) := rfl

/-- The methods of the fields that hold files. -/
def fileMethodNames (e : Entity) : List String :=
  e.fileFields.flatMap fun f => ["upload" ++ Naming.studly f.1, "download" ++ Naming.studly f.1]

/-- The methods that a controller has on its own, apart from those of custom actions. -/
def controllerOwn (s : Schema) (e : Entity) : List String :=
  (if (middlewareLines s e).isEmpty then [] else ["__construct"]) ++
    ((RouteAction.all.filter e.routes.contains).map RouteAction.method) ++ fileMethodNames e ++
    ((stagesOf e).map fun stage => handlerName stage.1)

/-- The methods that a controller calls. -/
def controllerCalls (e : Entity) : List String :=
  (RouteAction.all.filter e.routes.contains).flatMap (callsOf e) ++ (stagesOf e).flatMap
    fun stage => customMethods stage.2

theorem tells_controllerLines (s : Schema) (e : Entity) : Tells (controllerLines s e)
    (controllerOwn s e ++ stubMethods ((stagesOf e).flatMap (·.2))) (controllerCalls e) := by
  have head : AreInert ["", s!"class {e.className}Controller extends Controller", "\x7b"] := by
    simp only [areInert_cons, areInert_nil, and_true, String.append_assoc]
    exact ⟨isInert_empty, isInert_append rfl _, isInert_ofList rfl⟩
  have routes : Tells ((RouteAction.all.filter e.routes.contains).flatMap fun route =>
      routeMethod e route ++ [""]) ((RouteAction.all.filter e.routes.contains).flatMap fun route =>
        [route.method] ++ [])
      ((RouteAction.all.filter e.routes.contains).flatMap fun route => callsOf e route ++ []) :=
    .flatMap fun route _ => (tells_routeMethod e route).append tells_gap
  have files : Tells (e.fileFields.flatMap fun (name, field) => fileMethods e name field)
      (fileMethodNames e) [] :=
    .flatMap_nil fun f _ => tells_fileMethods e f.1 f.2
  have handlers : Tells ((stagesOf e).flatMap fun (stage, actions) => handlerMethod e stage actions)
      ((stagesOf e).flatMap fun stage => [handlerName stage.1]) ((stagesOf e).flatMap fun stage =>
        customMethods stage.2) :=
    .flatMap fun stage _ => tells_handlerMethod e stage.1 stage.2
  have body := ((((tells_constructorLines s e).append routes).append files).append handlers).append
    (tells_stubLines ((stagesOf e).flatMap (·.2)) "mixed $subject" "Custom hook action")
  have front (imports : List String) :=
    ((areInert_opening "App\\Http\\Controllers" imports).tellsNothing.append
      head.tellsNothing).append body
  refine (((tells_withoutTrailingBlanks (front _)).append areInert_end.tellsNothing).of_eq ?_).mono
    ?_
  · simp [controllerOwn, List.map_eq_flatMap]
  · simp [controllerCalls]

/-- The lines of an observer. -/
def observerLines (e : Entity) : List String :=
  let cls := e.className
  let row := e.variableName
  let actions := (eventsOf e).flatMap (·.2)
  withoutTrailingBlanks
    (opening "App\\Observers" (s!"App\\Models\\{cls}" :: actionImports actions) ++
      ["", s!"class {cls}Observer", "\x7b"] ++
      ((eventsOf e).flatMap fun (event, actions) => eventMethod e event actions) ++
      stubLines actions s!"{cls} ${row}" "Custom observer action") ++ ["\x7d"]

theorem observerPage_eq (e : Entity) : observerPage e = page (observerLines e) := rfl

theorem tells_eventMethod (e : Entity) (event : String) (actions : List Action) :
    Tells (eventMethod e event actions) [event] (customMethods actions) := by
  have head : Tells (method s!"public function {event}({e.className} ${e.variableName}): void"
      (Php.indent 2 (actions.flatMap (actionLines ⟨"$" ++ e.variableName, event, false⟩ e))))
        [event] (customMethods actions) := by
    refine tells_method (opens_public (by simp [toString])) ?_
      (tells_indent (calls_actions _ e actions))
    simp only [String.append_assoc]
    exact isSilent_append rfl _
  exact head.between (areInert_remark _) areInert_gap

theorem tells_observerLines (e : Entity) : Tells (observerLines e)
    ((eventsOf e).map (·.1) ++ stubMethods ((eventsOf e).flatMap (·.2)))
    ((eventsOf e).flatMap fun event => customMethods event.2) := by
  have head : AreInert ["", s!"class {e.className}Observer", "\x7b"] := by
    simp only [areInert_cons, areInert_nil, and_true, String.append_assoc]
    exact ⟨isInert_empty, isInert_append rfl _, isInert_ofList rfl⟩
  have events : Tells ((eventsOf e).flatMap fun (event, actions) => eventMethod e event actions)
      ((eventsOf e).flatMap fun event => [event.1]) ((eventsOf e).flatMap fun event =>
        customMethods event.2) :=
    .flatMap fun event _ => tells_eventMethod e event.1 event.2
  have front (imports : List String) :=
    (areInert_opening "App\\Observers" imports).tellsNothing.append head.tellsNothing
  have whole (imports : List String) := ((front imports).append events).append
    (tells_stubLines ((eventsOf e).flatMap (·.2)) s!"{e.className} ${e.variableName}"
      "Custom observer action")
  refine (((tells_withoutTrailingBlanks (whole _)).append areInert_end.tellsNothing).of_eq ?_).mono
    ?_
  · simp [List.map_eq_flatMap]
  · simp

/-- The lines of a policy. -/
def policyLines (e : Entity) : List String :=
  let cls := e.className
  opening "App\\Policies" ["App\\Models\\User", s!"App\\Models\\{cls}",
      "Illuminate\\Auth\\Access\\HandlesAuthorization", "Illuminate\\Auth\\Access\\Response"] ++
    ["", s!"class {cls}Policy", "\x7b", "    use HandlesAuthorization;"] ++
    (policyMethods e).flatMap (policyMethod e) ++ ["\x7d"]

theorem policyPage_eq (e : Entity) : policyPage e = page (policyLines e) := rfl

theorem isSilent_defaultAnswer (policy row : String) : IsSilent (defaultAnswer policy row) := by
  unfold defaultAnswer
  split
  · exact isSilent_ofList rfl
  · exact isSilent_ofList rfl
  · exact isSilent_ofList rfl
  · simp only [String.append_assoc]
    exact isSilent_append rfl _
  · simp only [String.append_assoc]
    exact isSilent_append rfl _
  · exact isSilent_ofList rfl

theorem tells_policyMethod (e : Entity) (policy : String) :
    Tells (policyMethod e policy) [policy] [] := by
  have before : AreInert ("" :: remark s!"Determine whether the user can {policy} the model.") :=
    areInert_cons.2 ⟨isInert_empty, areInert_remark _⟩
  have write (parameters answer : String) (silent : IsSilent answer) :
      Tells (method s!"public function {policy}({parameters}): Response" ["        " ++ answer])
        [policy] [] := by
    have body : AreInert ["        " ++ answer] := by
      simp only [areInert_cons, areInert_nil, and_true]
      exact ⟨silent.indented 8, isHeading_append rfl _⟩
    refine tells_method (opens_public (by simp [toString])) ?_ body.tellsNothing
    simp only [String.append_assoc]
    exact isSilent_append rfl _
  refine before.tellsNothing.append (write _ _ ?_)
  split
  · simp only [String.append_assoc]
    exact isSilent_append rfl _
  · exact isSilent_defaultAnswer policy _

theorem tells_policyLines (e : Entity) : Tells (policyLines e) (policyMethods e) [] := by
  have head :
      AreInert ["", s!"class {e.className}Policy", "\x7b", "    use HandlesAuthorization;"] := by
    simp only [areInert_cons, areInert_nil, and_true, String.append_assoc]
    exact ⟨isInert_empty, isInert_append rfl _, isInert_ofList rfl, isInert_ofList rfl⟩
  have methods : Tells ((policyMethods e).flatMap (policyMethod e))
    ((policyMethods e).flatMap fun policy => [policy]) [] :=
    .flatMap_nil fun policy _ => tells_policyMethod e policy
  rw [List.flatMap_singleton'] at methods
  exact methods.between (areInert_append.2 ⟨areInert_opening _ _, head⟩) areInert_end

/-- The lines of a factory whose rows have these values. -/
def factoryLines (e : Entity) (values : List String) : List String :=
  let cls := e.className
  ["<?php", "", "namespace Database\\Factories;", "", s!"use App\\Models\\{cls};",
      "use Illuminate\\Database\\Eloquent\\Factories\\Factory;", "", "/**",
      s!" * @extends \\Illuminate\\Database\\Eloquent\\Factories\\Factory<\\App\\Models\\{cls}>",
      " */", s!"class {cls}Factory extends Factory", "\x7b",
      s!"    protected $model = {cls}::class;", "",
      "    /**", "     * Define the model's default state.", "     *",
      "     * @return array<string, mixed>", "     */"] ++
    method "public function definition(): array"
      (["        return ["] ++ values ++ ["        ];"]) ++
    (factoryStates e).flatMap stateMethod ++ ["\x7d"]

theorem factoryPage_eq (s : Schema) (e : Entity) :
    factoryPage s e = (definitionLines s e).map fun values => page (factoryLines e values) := rfl

/-- The line of each value begins with the name of its column. -/
theorem areInert_definitionLines {s : Schema} {e : Entity} {values : List String}
    (read : definitionLines s e = .ok values) : AreInert values := by
  intro line mem
  obtain ⟨⟨name, field⟩, -, made⟩ := exists_of_mapM_ok read mem
  obtain ⟨value, -, rfl⟩ := map_eq_ok.1 made
  simp only [String.append_assoc]
  exact isInert_append rfl _

theorem tells_stateMethod (state : FactoryState) : Tells (stateMethod state) [state.method] [] := by
  refine tells_gap.append (tells_method (opens_public (by simp)) ?_ (AreInert.tellsNothing ?_))
  · rw [String.append_assoc]
    exact isSilent_append rfl _
  · split
    · simp only [areInert_cons, areInert_nil, and_true]
      exact isInert_ofList rfl
    · simp only [areInert_cons, areInert_nil, and_true, String.append_assoc]
      exact ⟨isInert_ofList rfl, isInert_append rfl _, isInert_ofList rfl⟩

theorem tells_factoryLines {s : Schema} {e : Entity} {values : List String}
    (read : definitionLines s e = .ok values) :
    Tells (factoryLines e values) ("definition" :: (factoryStates e).map (·.method)) [] := by
  have head : AreInert ["<?php", "", "namespace Database\\Factories;", "",
      s!"use App\\Models\\{e.className};",
      "use Illuminate\\Database\\Eloquent\\Factories\\Factory;", "", "/**",
      s!" * @extends \\Illuminate\\Database\\Eloquent\\Factories\\Factory<\\App\\Models\\{e.className}>",
      " */",
      s!"class {e.className}Factory extends Factory", "\x7b",
      s!"    protected $model = {e.className}::class;", "",
      "    /**", "     * Define the model's default state.", "     *",
      "     * @return array<string, mixed>", "     */"] := by
    simp only [areInert_cons, areInert_nil, and_true, String.append_assoc]
    refine ⟨isInert_ofList rfl, isInert_empty, isInert_ofList rfl, isInert_empty,
      isInert_append rfl _, isInert_ofList rfl, isInert_empty, isInert_ofList rfl,
      isInert_append rfl _, isInert_ofList rfl, isInert_append rfl _, isInert_ofList rfl,
      ⟨isSilent_append rfl _, isHeading_property _ _⟩, isInert_empty, isInert_ofList rfl,
      isInert_ofList rfl, isInert_ofList rfl, isInert_ofList rfl, isInert_ofList rfl⟩
  have body : AreInert (["        return ["] ++ values ++ ["        ];"]) := by
    simp only [areInert_append, areInert_cons, areInert_nil, and_true,
      areInert_definitionLines read]
    exact ⟨isInert_ofList rfl, isInert_ofList rfl⟩
  have definition : Tells (method "public function definition(): array"
      (["        return ["] ++ values ++ ["        ];"]))
      ["definition"] [] :=
        tells_method (opens_public (by simp)) (isSilent_ofList rfl) body.tellsNothing
  have states : Tells ((factoryStates e).flatMap stateMethod)
    ((factoryStates e).flatMap fun state => [state.method]) [] :=
    .flatMap_nil fun state _ => tells_stateMethod state
  rw [← List.map_eq_flatMap] at states
  have whole :=
    ((head.tellsNothing.append definition).append states).append areInert_end.tellsNothing
  exact whole.of_eq (by simp)

/-- The lines of a model. -/
def modelLines (s : Schema) (e : Entity) : List String :=
  let cls := e.className
  let parent := if isUsers e then "Authenticatable" else "Model"
  let traits := Text.join ", " (modelTraits s e)
  let table := e.table
  let hidden := hiddenColumns e
  opening "App\\Models" (modelImports s e) ++
    ["", s!"class {cls} extends {parent}", "\x7b", s!"    use {traits};", "",
      s!"    protected $table = '{table}';", ""] ++
    marked "FILLABLE" (propertyList "fillable" (e.fields.keys.filter fun n =>
      !autoColumns.contains n)) ++
    (if hidden.isEmpty then [] else "" :: propertyList "hidden" hidden) ++ [""] ++
    marked "CASTS" (["    protected $casts = ["] ++
      (e.fields.entries.filterMap fun (name, field) => castLine? name field) ++
        ["    ];"]) ++ [""] ++
    marked "RELATIONS" (e.relations.entries.flatMap fun (name, relation) =>
      relationMethod s name relation) ++
    [""] ++
    marked "SCOPES" (e.scopes.values.flatMap fun scope =>
      (scope.form.map (scopeMethod scope.name)).getD []) ++ ["\x7d"]

theorem modelPage_eq (s : Schema) (e : Entity) : modelPage s e = page (modelLines s e) := rfl

/-- Whether a relation has a method: it leads to a model of any kind, or names one. -/
def isRendered (relation : Relation) : Bool := relation == .morphTo || relation.target?.isSome

/-- The relations of an entity that have a method. -/
def relationMethods (e : Entity) : List String :=
  (e.relations.entries.filter fun entry => isRendered entry.2).map (·.1)

/-- The methods of the scopes that can be written out. -/
def scopeMethods (e : Entity) : List String :=
  (e.scopes.values.filter (·.form.isSome)).map fun scope => "scope" ++ Naming.studly scope.name

theorem tells_marked (part : String) {body names : List String} (inside : Tells body names []) :
    Tells (marked part body) names [] := by
  have start : AreInert [s!"    // >>> AI-NATIVE {part} START"] := by
    simp only [areInert_cons, areInert_nil, and_true, String.append_assoc]
    exact isInert_append rfl _
  have stop : AreInert [s!"    // >>> AI-NATIVE {part} END"] := by
    simp only [areInert_cons, areInert_nil, and_true, String.append_assoc]
    exact isInert_append rfl _
  exact inside.between start stop

theorem areInert_propertyList (property : String) (names : List String) :
    AreInert (propertyList property names) := by
  simp only [propertyList, areInert_append, areInert_cons, areInert_nil, and_true, areInert_map,
    String.append_assoc]
  exact ⟨⟨⟨isSilent_append rfl _, isHeading_property _ _⟩, fun name _ => isInert_append rfl _⟩,
    isInert_ofList rfl⟩

theorem tells_relationMethod (s : Schema) (name : String) (relation : Relation) :
    Tells (relationMethod s name relation) (if isRendered relation then [name] else []) [] := by
  have write (kind returned arguments : String) : Tells
      (method s!"public function {name}(): {returned}"
        [s!"        return $this->{kind}({arguments});"] ++ [""]) [name] [] := by
    have body : AreInert [s!"        return $this->{kind}({arguments});"] := by
      simp only [areInert_cons, areInert_nil, and_true, String.append_assoc]
      exact isInert_append rfl _
    refine Tells.append (tells_method (opens_public (by simp [toString])) ?_
      body.tellsNothing) tells_gap
    simp only [String.append_assoc]
    exact isSilent_append rfl _
  by_cases wild : relation = .morphTo
  · subst wild
    exact write _ _ _
  · cases named : relatedClass? s relation with
    | none =>
      have untargeted : relation.target? = none := Option.map_eq_none_iff.1 named
      have left : relationMethod s name relation = [] := by simp only [relationMethod, named]
      have hidden : isRendered relation = false := by simp [isRendered, untargeted, wild]
      rw [left, hidden]
      exact areInert_nil.tellsNothing
    | some related =>
      have rendered : isRendered relation = true := by
        obtain ⟨target, leads, -⟩ := Option.map_eq_some_iff.1 named
        simp [isRendered, leads]
      rw [rendered, if_pos rfl]
      simp only [relationMethod, named]
      exact write _ _ _

theorem tells_scopeMethod (name : String) (form : ScopeForm) :
    Tells (scopeMethod name form) ["scope" ++ Naming.studly name] [] := by
  have body : AreInert ["        return $query->" ++ scopeCall form ++ ";"] := by
    simp only [areInert_cons, areInert_nil, and_true, String.append_assoc]
    exact isInert_append rfl _
  refine Tells.append (tells_method (opens_public (by simp)) ?_ body.tellsNothing) tells_gap
  simp only [String.append_assoc]
  exact isSilent_append rfl _

theorem flatMap_if {α β : Type} (list : List α) (p : α → Bool) (f : α → β) :
    (list.flatMap fun a => if p a then [f a] else []) = (list.filter p).map f := by
  induction list with
  | nil => rfl
  | cons a rest ih =>
    rw [List.flatMap_cons, ih]
    cases held : p a <;> simp [held]

theorem tells_modelLines (s : Schema) (e : Entity) :
    Tells (modelLines s e) (relationMethods e ++ scopeMethods e) [] := by
  have head (cls parent traits table : String) :
      AreInert ["", s!"class {cls} extends {parent}", "\x7b", s!"    use {traits};", "",
        s!"    protected $table = '{table}';", ""] := by
    simp only [areInert_cons, areInert_nil, and_true, String.append_assoc]
    exact ⟨isInert_empty, isInert_append rfl _, isInert_ofList rfl, isInert_append rfl _,
      isInert_empty, ⟨isSilent_append rfl _, isHeading_property _ _⟩, isInert_empty⟩
  have hidden (names : List String) :
      AreInert (if names.isEmpty then [] else "" :: propertyList "hidden" names) := by
    split
    · exact areInert_nil
    · exact areInert_cons.2 ⟨isInert_empty, areInert_propertyList _ _⟩
  have casts : AreInert (["    protected $casts = ["] ++
      (e.fields.entries.filterMap fun (name, field) => castLine? name field) ++ ["    ];"]) := by
    have each :
        AreInert (e.fields.entries.filterMap fun (name, field) => castLine? name field) := by
      intro line mem
      obtain ⟨⟨name, field⟩, -, made⟩ := List.mem_filterMap.1 mem
      simp only [castLine?] at made
      split at made
      · cases made
      · obtain ⟨cast, -, rfl⟩ := Option.map_eq_some_iff.1 made
        simp only [String.append_assoc]
        exact isInert_append rfl _
    have start : IsInert "    protected $casts = [" := by
      refine ⟨isSilent_ofList rfl, ?_⟩
      simp [isHeading, openings, Text.startsWith, Chars.dropHead?]
    simp only [areInert_append, areInert_cons, areInert_nil, and_true, each]
    exact ⟨start, isInert_ofList rfl⟩
  have relations :
      Tells (e.relations.entries.flatMap fun (name, relation) => relationMethod s name relation)
      (e.relations.entries.flatMap fun entry => if isRendered entry.2 then [entry.1] else []) [] :=
    .flatMap_nil fun entry _ => tells_relationMethod s entry.1 entry.2
  have scopes :
      Tells (e.scopes.values.flatMap fun scope => (scope.form.map (scopeMethod scope.name)).getD [])
      (e.scopes.values.flatMap fun scope => if scope.form.isSome then
        ["scope" ++ Naming.studly scope.name] else []) [] := by
    refine .flatMap_nil fun scope _ => ?_
    cases scope.form with
    | none => exact areInert_nil.tellsNothing
    | some form => exact tells_scopeMethod scope.name form
  rw [flatMap_if] at relations scopes
  have front (imports : List String) (cls parent traits table : String) :=
    (areInert_opening "App\\Models" imports).tellsNothing.append
      (head cls parent traits table).tellsNothing
  have filled (names : List String) :=
    tells_marked "FILLABLE" (areInert_propertyList "fillable" names).tellsNothing
  have properties (imports fillable secret : List String) (cls parent traits table : String) :=
    (((front imports cls parent traits table).append (filled fillable)).append
      (hidden secret).tellsNothing).append tells_gap
  have whole (imports fillable secret : List String) (cls parent traits table : String) :=
    ((((((properties imports fillable secret cls parent traits table).append
      (tells_marked "CASTS" casts.tellsNothing)).append
      tells_gap).append (tells_marked "RELATIONS" relations)).append tells_gap).append
        (tells_marked "SCOPES" scopes)).append
      areInert_end.tellsNothing
  exact (whole _ _ _ _ _ _ _).of_eq (by simp [relationMethods, scopeMethods])

end Scaffold.Render
