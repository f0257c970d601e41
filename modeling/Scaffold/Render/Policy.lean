import Scaffold.Render.Page
import Scaffold.Render.Permission
import Scaffold.Schema

/-!
# Policies

The class that says who may do what with an entity: the framework's own methods first, then those
that the schema adds. A method without a rule has a body of its own.
-/

namespace Scaffold.Render
set_option autoImplicit false

/-- The methods that every policy has. -/
def standardMethods : List String :=
  ["viewAny", "view", "create", "update", "delete", "restore", "forceDelete"]

/-- Whether a method gets a row beside the user. -/
def getsRow (policy : String) : Bool := policy != "viewAny" && policy != "create"

/-- The variable that holds the row; `$user` is taken. -/
def rowVariable (e : Entity) : String :=
  if e.variableName == "user" then "model" else e.variableName

/-- What a method without a rule answers. -/
def defaultAnswer (policy row : String) : String :=
  match policy with
  | "viewAny" | "view" => "return Response::allow();"
  | "create" => "return $user ? Response::allow() : Response::deny();"
  | "update" | "delete" =>
    s!"return $user->id === ${row}->user_id ? Response::allow() : Response::deny();"
  | _ => "return $user->isAdmin() ? Response::allow() : Response::deny();"

/-- A method of the policy. -/
def policyMethod (e : Entity) (policy : String) : List String :=
  let row := rowVariable e
  let hasRow := getsRow policy
  let answer :=
    match e.policies.get? policy with
    | some rule =>
      "return " ++ ruleText row hasRow rule ++ " ? Response::allow() : Response::deny();"
    | none => defaultAnswer policy row
  let parameters := "User $user" ++ if hasRow then ", " ++ e.className ++ " $" ++ row else ""
  "" :: remark s!"Determine whether the user can {policy} the model." ++
    method s!"public function {policy}({parameters}): Response" ["        " ++ answer]

/-- The methods of an entity's policy. -/
def policyMethods (e : Entity) : List String :=
  standardMethods ++ e.policies.keys.filter fun name => !standardMethods.contains name

/-- The policy of an entity. -/
def policyPage (e : Entity) : String :=
  let cls := e.className
  page (opening "App\\Policies" ["App\\Models\\User", s!"App\\Models\\{cls}",
      "Illuminate\\Auth\\Access\\HandlesAuthorization", "Illuminate\\Auth\\Access\\Response"] ++
    ["", s!"class {cls}Policy", "\x7b", "    use HandlesAuthorization;"] ++
    (policyMethods e).flatMap (policyMethod e) ++ ["\x7d"])

end Scaffold.Render
