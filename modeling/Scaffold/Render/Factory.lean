import Scaffold.Render.Page
import Scaffold.Render.Sample

/-!
# Factories

The class that makes up rows of an entity, with a method for each named state.
-/

namespace Scaffold.Render
set_option autoImplicit false

open Text (NumeralError)

/-- A state of a factory: its method, and the column that it sets with the PHP value. A state that
the schema only names sets nothing. -/
structure FactoryState where
  method : String
  assignment : Option (String × String)

/-- The state that turns off the first of several columns that the entity has. -/
def offState (e : Entity) (method : String) (columns : List String) : List FactoryState :=
  match columns.find? e.fields.has with
  | some column => [⟨method, some (column, "false")⟩]
  | none => []

/-- All states that an entity suggests, before methods that come twice are left out. -/
def suggestedStates (e : Entity) : List FactoryState :=
  offState e "inactive" ["is_active", "active"] ++
  offState e "unpublished" ["published", "is_published"] ++
  (e.fields.entries.flatMap fun (name, field) =>
    field.enumValues.map fun value => ⟨Naming.camel value, some (name, Php.literal value)⟩) ++
  match e.factory with
  | some factory => factory.states.map fun state => ⟨Naming.camel state, none⟩
  | none => []

/-- The states whose method has a name that is not taken; of several the first. -/
def distinctStates : List String → List FactoryState → List FactoryState
  | _, [] => []
  | taken, state :: rest =>
    if state.method.isEmpty || taken.contains state.method then distinctStates taken rest
    else state :: distinctStates (state.method :: taken) rest

/-- The states of an entity's factory. -/
def factoryStates (e : Entity) : List FactoryState :=
  distinctStates ["definition"] (suggestedStates e)

/-- The method of a state. -/
def stateMethod (state : FactoryState) : List String :=
  let body :=
    match state.assignment with
    | none => ["        return $this->state([]);"]
    | some (column, value) =>
      ["        return $this->state([", s!"            '{column}' => {value},", "        ]);"]
  "" :: method ("public function " ++ state.method ++ "(): static") body

/-- The made-up values of a row. -/
def definitionLines (s : Schema) (e : Entity) : Except NumeralError (List String) :=
  (e.fields.entries.filter fun f => !autoColumns.contains f.1).mapM fun (name, field) =>
    (sample s name field).map fun value => s!"            '{name}' => {value},"

/-- The factory of an entity. -/
def factoryPage (s : Schema) (e : Entity) : Except NumeralError String :=
  let cls := e.className
  (definitionLines s e).map fun values =>
    page (["<?php", "", "namespace Database\\Factories;", "", s!"use App\\Models\\{cls};",
        "use Illuminate\\Database\\Eloquent\\Factories\\Factory;", "", "/**",
        s!" * @extends \\Illuminate\\Database\\Eloquent\\Factories\\Factory<\\App\\Models\\{cls}>",
        " */", s!"class {cls}Factory extends Factory", "\x7b",
        s!"    protected $model = {cls}::class;", "",
        "    /**", "     * Define the model's default state.", "     *",
        "     * @return array<string, mixed>", "     */"] ++
      method "public function definition(): array"
        (["        return ["] ++ values ++ ["        ];"]) ++
      (factoryStates e).flatMap stateMethod ++ ["\x7d"])

end Scaffold.Render
