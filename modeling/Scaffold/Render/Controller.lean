import Scaffold.Render.Hook
import Scaffold.Render.Permission
import Scaffold.Render.Requirement

/-!
# Controllers

The class that answers the routes of an entity: who may call a method, one method for each route,
two for each field that holds files, and the hooks that run before and after a change.
-/

namespace Scaffold.Render
set_option autoImplicit false

/-- How many rows a page of a listing has. -/
def defaultPerPage : Nat := 15

/-- The middleware that asks for a user who is logged in. -/
def authMiddleware (s : Schema) : String := if s.auth.usesTokens then "auth:sanctum" else "auth"

/-- The route that a method of a policy guards. -/
def guardedRoute? (policy : String) : Option RouteAction :=
  match policy with
  | "viewAny" => some .list
  | "view" => some .display
  | "create" => some .create
  | "update" => some .update
  | "delete" => some .delete
  | _ => none

/-- The middleware that lets the given roles pass. -/
def roleMiddleware (roles : List String) : String := "role:" ++ Text.join "|" roles

/-- The roles that a condition asks for, if it asks for nothing else. -/
def roles? : Condition → Option (List String)
  | .role roles => some roles
  | _ => none

/-- The middleware that a rule implies. Of a rule with alternatives one middleware covers all
roles, and only if every alternative is a role. -/
def ruleMiddleware (s : Schema) (rule : Rule) : List String :=
  match rule.operator with
  | .any =>
    match rule.conditions.mapM roles? with
    | some roles => [roleMiddleware roles.flatten]
    | none => []
  | _ => rule.conditions.filterMap fun
    | .role roles => some (roleMiddleware roles)
    | .authenticated => some (authMiddleware s)
    | _ => none

/-- Each middleware with the methods that it guards. -/
def guards (s : Schema) (e : Entity) : OrderedMap (List String) :=
  let pairs := e.policies.entries.flatMap fun (policy, rule) =>
    match guardedRoute? policy with
    | some route =>
      if e.routes.contains route then (ruleMiddleware s rule).map fun name => (name, route.method)
      else []
    | none => []
  pairs.foldl (fun map (name, method) =>
    map.insert name ((map.get? name).getD [] ++ [method])) .empty

/-- The lines of the constructor that set up the middleware. -/
def middlewareLines (s : Schema) (e : Entity) : List String :=
  (guards s e).entries.map fun (name, methods) =>
    s!"        $this->middleware('{name}')->only(" ++ Php.array methods ++ ");"

/-- The constructor; without middleware there is none. -/
def constructorLines (s : Schema) (e : Entity) : List String :=
  let lines := middlewareLines s e
  if lines.isEmpty then [] else method "public function __construct()" lines ++ [""]

/-- What narrows, orders and completes a listing. -/
def filterLines (filter : IndexFilter) : List String :=
  (filter.conditions.entries.map fun (column, value) =>
    let wanted := if value == "$auth.id" then "auth()->id()" else Php.scalar value
    s!"        $query->where('{column}', {wanted});") ++
  (match filter.order with
    | some (column, direction) =>
      [s!"        $query->orderBy('{column}', '" ++ direction.name ++ "');"]
    | none => []) ++
  if filter.relations.isEmpty then []
  else ["        $query->with(" ++ Php.array filter.relations ++ ");"]

/-- Whether a search looks into a field: it holds text, and no secret. -/
def isSearchable (name : String) (field : Field) : Bool :=
  [some FieldType.string, some .text, some .longText].contains field.type? &&
    !Text.has "password" name && !Text.has "token" name

/-- The search over the given columns. -/
def searchLines : List String → List String
  | [] => []
  | first :: more =>
    let like (call name : String) : String :=
      s!"                $q->{call}('{name}', 'like', \"%\x7b$search\x7d%\");"
    ["", "        if ($search = $request->get('search')) \x7b",
      "            $query->where(function ($q) use ($search) \x7b"] ++
    (like "where" first :: more.map (like "orWhere")) ++
    ["            \x7d);", "        \x7d"]

/-- The method that lists the rows. -/
def listMethod (e : Entity) : List String :=
  let cls := e.className
  let columns := (e.fields.entries.filter fun f => isSearchable f.1 f.2).map (·.1)
  method "public function index(Request $request): JsonResponse"
    ([s!"        $query = {cls}::query();"] ++ (e.filters.map filterLines).getD [] ++
      searchLines columns ++ ["",
      s!"        return response()->json($query->paginate($request->get('per_page', {defaultPerPage})));"])

/-- The method that shows one row. -/
def displayMethod (e : Entity) : List String :=
  let cls := e.className
  let row := e.variableName
  method s!"public function show({cls} ${row}): JsonResponse"
    [s!"        return response()->json(${row});"]

/-- The fields that a request may set. -/
def requestFields (e : Entity) : List (String × Field) :=
  e.fields.entries.filter fun f => !autoColumns.contains f.1 && !f.2.isFile

/-- The check of a request's data. -/
def checkLines (e : Entity) (forUpdate : Bool) : List String :=
  let ignored := if forUpdate then some e.variableName else none
  ["        $validated = $request->validate(["] ++
  ((requestFields e).map fun (name, field) =>
    s!"            '{name}' => " ++
      requirementExpression (requirements e.table name field forUpdate) ignored ++ ",") ++
  ["        ]);"]

/-- A line that runs a hook, if the entity has it. -/
def hookCall (e : Entity) (stage line : String) : List String :=
  if e.hooks.has stage then [line] else []

/-- The method that makes a row. -/
def createMethod (e : Entity) : List String :=
  let cls := e.className
  let row := e.variableName
  method "public function store(Request $request): JsonResponse"
    (checkLines e false ++ [""] ++
      hookCall e "beforeCreate" "        $validated = $this->handleBeforeCreate($validated);" ++
      [s!"        ${row} = {cls}::create($validated);"] ++
      hookCall e "afterCreate" s!"        $this->handleAfterCreate(${row});" ++
      ["", s!"        return response()->json(${row}, 201);"])

/-- The method that changes a row. -/
def updateMethod (e : Entity) : List String :=
  let cls := e.className
  let row := e.variableName
  method s!"public function update(Request $request, {cls} ${row}): JsonResponse"
    (checkLines e true ++ [""] ++
      hookCall e "beforeUpdate"
        s!"        $validated = $this->handleBeforeUpdate($validated, ${row});" ++
      [s!"        ${row}->update($validated);"] ++
      hookCall e "afterUpdate" s!"        $this->handleAfterUpdate(${row});" ++
      ["", s!"        return response()->json(${row});"])

/-- The method that deletes a row. -/
def deleteMethod (e : Entity) : List String :=
  let cls := e.className
  let row := e.variableName
  method s!"public function destroy({cls} ${row}): JsonResponse"
    (hookCall e "beforeDelete" s!"        $this->handleBeforeDelete(${row});" ++
      [s!"        ${row}->delete();"] ++
      hookCall e "afterDelete" s!"        $this->handleAfterDelete(${row});" ++
      ["", "        return response()->json(null, 204);"])

/-- The method of a route. -/
def routeMethod (e : Entity) : RouteAction → List String
  | .list => listMethod e
  | .display => displayMethod e
  | .create => createMethod e
  | .update => updateMethod e
  | .delete => deleteMethod e

/-- The body that takes in files. -/
def uploadBody (e : Entity) (name : String) (field : Field) : List String :=
  let row := e.variableName
  let table := e.table
  let disk := diskOf field
  if field.isMultiple then
    ["        $request->validate([", "            'files' => 'required|array',",
      "            'files.*' => 'file',", "        ]);", "",
      s!"        $paths = ${row}->{name} ?? [];",
      "        foreach ($request->file('files') as $file) \x7b",
      s!"            $paths[] = $file->store('{table}', '{disk}');", "        \x7d",
      s!"        ${row}->update(['{name}' => $paths]);"]
  else
    ["        $request->validate(['file' => 'required|file']);", "",
      s!"        if (${row}->{name}) \x7b",
      s!"            Storage::disk('{disk}')->delete(${row}->{name});", "        \x7d",
      s!"        $path = $request->file('file')->store('{table}', '{disk}');",
      s!"        ${row}->update(['{name}' => $path]);"]

/-- The body that hands out files. -/
def downloadBody (e : Entity) (name : String) (field : Field) : List String :=
  let row := e.variableName
  let disk := diskOf field
  if field.isMultiple then
    [s!"        $urls = collect(${row}->{name} ?? [])",
      s!"            ->map(fn ($path) => Storage::disk('{disk}')->url($path))",
      "            ->values();", "", "        return response()->json($urls);"]
  else
    [s!"        if (! ${row}->{name} || ! Storage::disk('{disk}')->exists(${row}->{name})) \x7b",
      "            abort(404);", "        \x7d", "",
      s!"        return Storage::disk('{disk}')->download(${row}->{name});"]

/-- The two methods of a field that holds files. -/
def fileMethods (e : Entity) (name : String) (field : Field) : List String :=
  let cls := e.className
  let row := e.variableName
  let studly := Naming.studly name
  method s!"public function upload{studly}(Request $request, {cls} ${row}): JsonResponse"
    (uploadBody e name field ++ ["", s!"        return response()->json(${row});"]) ++ [""] ++
  method s!"public function download{studly}({cls} ${row})" (downloadBody e name field) ++ [""]

/-- The heading of the method that runs a stage's actions. -/
def handlerHeading (e : Entity) (stage : String) : String :=
  let handler := "handle" ++ Text.capitalized stage
  let cls := e.className
  let row := e.variableName
  match stage with
  | "beforeCreate" => s!"protected function {handler}(array $data): array"
  | "beforeUpdate" => s!"protected function {handler}(array $data, {cls} ${row}): array"
  | _ => s!"protected function {handler}({cls} ${row}): void"

/-- The method that runs a stage's actions. -/
def handlerMethod (e : Entity) (stage : String) (actions : List Action) : List String :=
  let onData := stage == "beforeCreate" || stage == "beforeUpdate"
  let site : HookSite := ⟨if onData then "$data" else "$" ++ e.variableName, stage, onData⟩
  method (handlerHeading e stage)
    (Php.indent 2 (actions.flatMap (actionLines site e) ++ if onData then
      ["", "return $data;"] else [])) ++
  [""]

/-- The stages that an entity has hooks for, with their actions. -/
def stagesOf (e : Entity) : List (String × List Action) :=
  hookStages.filterMap fun stage => (e.hooks.get? stage).map fun actions => (stage, actions)

/-- The controller of an entity. -/
def controllerPage (s : Schema) (e : Entity) : String :=
  let cls := e.className
  let actions := (stagesOf e).flatMap (·.2)
  let imports :=
    [s!"App\\Models\\{cls}", "Illuminate\\Http\\JsonResponse", "Illuminate\\Http\\Request"] ++
    actionImports actions ++
    if e.fileFields.isEmpty then [] else ["Illuminate\\Support\\Facades\\Storage"]
  let body := constructorLines s e ++
    ((RouteAction.all.filter e.routes.contains).flatMap fun route => routeMethod e route ++ [""]) ++
    (e.fileFields.flatMap fun (name, field) => fileMethods e name field) ++
    ((stagesOf e).flatMap fun (stage, actions) => handlerMethod e stage actions) ++
    stubLines actions "mixed $subject" "Custom hook action"
  page (withoutTrailingBlanks (opening "App\\Http\\Controllers" imports ++
    ["", s!"class {cls}Controller extends Controller", "\x7b"] ++ body) ++ ["\x7d"])

end Scaffold.Render
