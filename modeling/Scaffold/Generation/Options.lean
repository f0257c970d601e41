import Scaffold.Json.Lenient
import Scaffold.Text.Blank
import Scaffold.Text.LetterCase

/-!
# Options of a run

How a run treats files that are there, which components it makes, and whether it runs although
nothing changed.
-/

namespace Scaffold
set_option autoImplicit false

/-- How a run treats files that are there: `clean` replaces them and deletes what is obsolete,
`merge` keeps them, `preview` changes nothing. -/
inductive Mode where
  | clean
  | merge
  | preview
  deriving DecidableEq, Repr

namespace Mode

def all : List Mode := [clean, merge, preview]

def name : Mode → String
  | clean => "clean"
  | merge => "merge"
  | preview => "preview"

def ofName? (text : String) : Option Mode := all.find? fun m => m.name == text

/-- The mode of several wishes: preview goes before merge, and merge before clean. -/
def ofWishes (merge preview : Bool) : Mode :=
  if preview then .preview else if merge then .merge else .clean

end Mode

/-- What a run can be restricted to. -/
inductive Component where
  | models
  | migrations
  | controllers
  | routes
  | factories
  | seeders
  | policies
  | observers
  | auth
  | providers
  deriving DecidableEq, Repr

namespace Component

def all : List Component :=
  [models, migrations, controllers, routes, factories, seeders, policies, observers,
    auth, providers]

def name : Component → String
  | models => "models"
  | migrations => "migrations"
  | controllers => "controllers"
  | routes => "routes"
  | factories => "factories"
  | seeders => "seeders"
  | policies => "policies"
  | observers => "observers"
  | auth => "auth"
  | providers => "providers"

/-- The component that a word names, whatever its case and the blanks around it. -/
def ofWord? (word : String) : Option Component :=
  let name := Text.lower (Text.strip word)
  all.find? fun c => c.name == name

/-- The components that words name, once each; words that name none are left out. -/
def ofWords (words : List String) : List Component := (words.filterMap ofWord?).eraseDups

/-- The components of a list between commas. -/
def ofText (text : String) : List Component := ofWords (Text.split ',' text)

end Component

/-- The options of a run. Without a choice of components it makes all of them. -/
structure Options where
  mode : Mode := .clean
  only : List Component := []
  force : Bool := false
  writeEnv : Bool := true
  deriving DecidableEq, Repr

namespace Options

/-- Whether a run makes a component. -/
def includes (options : Options) (component : Component) : Bool :=
  options.only.isEmpty || options.only.contains component

/-- Why values are no options: the choice of components holds no items, or some of the other
values have no meaning. -/
inductive Invalid where
  | notItems (kind : String)
  | violations (count : Nat)
  deriving DecidableEq, Repr

def Invalid.message : Invalid → String
  | notItems kind => "'" ++ kind ++ "' object is not iterable"
  | violations count => toString count ++ " in GenerationOptions"

/-- The components that a value chooses: a text with commas, or items. -/
def componentsOf : Json → Except Invalid (List Component)
  | .null => .ok []
  | .string text => .ok (Component.ofText text)
  | .array items => .ok (Component.ofWords (items.map Json.plain))
  | .object members => .ok (Component.ofWords (members.map (·.1)))
  | value => .error (.notItems value.kind)

/-- The options that named values give. -/
def ofMembers (members : Json.Members) : Except Invalid Options := do
  let only ← componentsOf ((members.get? "only").getD .null)
  let mode := ((members.get? "mode").getD (.string Mode.clean.name)).asText?.bind Mode.ofName?
  let force := ((members.get? "force").getD (.bool false)).asFlag?
  let writeEnv := ((members.get? "write_env").getD (.bool true)).asFlag?
  match mode, force, writeEnv with
  | some mode, some force, some writeEnv => return ⟨mode, only, force, writeEnv⟩
  | _, _, _ =>
    throw (.violations ([mode.isNone, force.isNone, writeEnv.isNone].count true))

end Options
end Scaffold
