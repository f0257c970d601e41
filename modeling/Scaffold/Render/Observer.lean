import Scaffold.Render.Hook

/-!
# Observers

The class that runs an entity's actions at the events of its rows. Events that the framework does
not have are left out.
-/

namespace Scaffold.Render
set_option autoImplicit false

/-- The events that an entity observes, with their actions. -/
def eventsOf (e : Entity) : List (String × List Action) :=
  observerEvents.filterMap fun event => (e.observers.get? event).map fun actions => (event, actions)

/-- The method of one event. -/
def eventMethod (e : Entity) (event : String) (actions : List Action) : List String :=
  let cls := e.className
  let row := e.variableName
  remark s!"Handle the {cls} \"{event}\" event." ++
    method s!"public function {event}({cls} ${row}): void"
      (Php.indent 2 (actions.flatMap (actionLines ⟨"$" ++ row, event, false⟩ e))) ++ [""]

/-- The observer of an entity. -/
def observerPage (e : Entity) : String :=
  let cls := e.className
  let row := e.variableName
  let actions := (eventsOf e).flatMap (·.2)
  page (withoutTrailingBlanks
    (opening "App\\Observers" (s!"App\\Models\\{cls}" :: actionImports actions) ++
      ["", s!"class {cls}Observer", "\x7b"] ++
      ((eventsOf e).flatMap fun (event, actions) => eventMethod e event actions) ++
      stubLines actions s!"{cls} ${row}" "Custom observer action") ++ ["\x7d"])

end Scaffold.Render
