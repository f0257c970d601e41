import Scaffold.Render.Controller
import Scaffold.Section

/-!
# Routes

The marked section of the routes file: the routes of the log-in, those of every entity, and the
ones that the schema declares by hand.
-/

namespace Scaffold.Render
set_option autoImplicit false

/-- The namespace of controllers. -/
def controllers : String := "\\App\\Http\\Controllers"

/-- The HTTP method of a route, as the framework's router calls it. -/
def routeVerb : RouteAction → String
  | .list | .display => "get"
  | .create => "post"
  | .update => "put"
  | .delete => "delete"

/-- Whether the path of a route names one row. -/
def takesRow : RouteAction → Bool
  | .list | .create => false
  | .display | .update | .delete => true

/-- The name by which a row stands in the path of a route. -/
def routeParameter (e : Entity) : String := e.variableName

/-- The path segment that stands for a row. -/
def rowSegment (e : Entity) : String := "\x7b" ++ routeParameter e ++ "\x7d"

/-- The line of a route to a controller's method. -/
def routeLine (verb uri controller method : String) : String :=
  s!"Route::{verb}('{uri}', [{controller}, '{method}']);"

/-- The routes of an entity, under a comment. -/
def entityRoutes (e : Entity) : List String :=
  let cls := e.className
  let controller := s!"{controllers}\\{cls}Controller::class"
  let rows := Naming.segment e.name
  let row := rows ++ "/" ++ rowSegment e
  [s!"// {cls} routes"] ++
  ((RouteAction.all.filter e.routes.contains).map fun route =>
    routeLine (routeVerb route) (if takesRow route then row else rows) controller route.method) ++
  e.fileFields.flatMap fun (name, _) =>
    let studly := Naming.studly name
    [routeLine "post" (row ++ "/upload/" ++ name) controller ("upload" ++ studly),
      routeLine "get" (row ++ "/download/" ++ name) controller ("download" ++ studly)]

/-- A class by its full name: a name without a namespace is one of the controllers. -/
def qualified (cls : String) : String :=
  if Text.startsWith "\\" cls then cls
  else if Text.hasChar '\\' cls then "\\" ++ cls
  else controllers ++ "\\" ++ cls

/-- What a route written by hand calls: a method of a class, or the class itself. -/
def customTarget (controller : String) : String :=
  match Text.cut? '@' controller with
  | some (cls, method) =>
    if method.isEmpty then qualified cls ++ "::class"
    else "[" ++ qualified cls ++ "::class, " ++ Php.literal method ++ "]"
  | none => qualified controller ++ "::class"

/-- The line of a route written by hand. -/
def customRouteLine (route : CustomRoute) : String :=
  "Route::" ++ route.method ++ "(" ++ Php.literal route.uri ++ ", " ++
    customTarget route.controller ++ ")" ++
  (if route.middleware.isEmpty then "" else "->middleware(" ++ Php.array route.middleware ++ ")") ++
  (match route.name with
    | some name => if name.isEmpty then "" else "->name(" ++ Php.literal name ++ ")"
    | none => "") ++ ";"

/-- The routes of the log-in. -/
def authRoutes (s : Schema) : List String :=
  let controller := controllers ++ "\\AuthController::class"
  let middleware := authMiddleware s
  ["// Authentication routes"] ++
  (if s.auth.usesTokens then [routeLine "post" "/register" controller "register"] else []) ++
  [routeLine "post" "/login" controller "login", "",
    s!"Route::middleware('{middleware}')->group(function () \x7b",
    "    " ++ routeLine "post" "/logout" controller "logout",
    "    " ++ routeLine "get" "/user" controller "user",
    "\x7d);", ""]

/-- The routes that the schema declares, of entities and by hand. -/
def declaredRoutes (s : Schema) : List String :=
  withoutTrailingBlanks
    (((s.entities.values.filter (·.hasRoutes)).flatMap fun e => entityRoutes e ++ [""]) ++
      if s.customRoutes.isEmpty then []
      else ["// Custom routes"] ++ s.customRoutes.map customRouteLine ++ [""])

/-- The lines of the section. -/
def routesSection (s : Schema) : List String :=
  let declared := declaredRoutes s
  let grouped :=
    if s.middlewares.isEmpty || declared.isEmpty then declared
    else ["Route::middleware(" ++ Php.array s.middlewares ++ ")->group(function () \x7b"] ++
      Php.indent 1 declared ++ ["\x7d);"]
  withoutTrailingBlanks ((if s.auth.enabled then authRoutes s else []) ++ grouped)

/-- A routes file that holds nothing but the section. -/
def routesPage (body : List String) : String :=
  page ["<?php", "", "use Illuminate\\Support\\Facades\\Route;", "", Section.wrap .routes body ""]

end Scaffold.Render
