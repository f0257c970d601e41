import Scaffold.Render.Page
import Scaffold.Schema

/-!
# Bodies of hooks and observers

What an action does at its stage. A built-in action has a body of its own; any other calls a
method of the class, for which a stub is written.
-/

namespace Scaffold.Render
set_option autoImplicit false

/-- The disk that keeps files when a field names none. -/
def defaultDisk : String := "public"

/-- The disk of a field. -/
def diskOf (field : Field) : String :=
  match field.disk? with
  | some disk => if disk.isEmpty then defaultDisk else disk
  | none => defaultDisk

/-- Where an action runs: the variable it works on, the stage, and whether the variable holds the
data of a request rather than a model. -/
structure HookSite where
  subject : String
  stage : String
  onData : Bool

/-- Whether a built-in action works on a saved model only. -/
def needsModel : BuiltinAction → Bool
  | .cleanupFiles | .logActivity | .moveChildrenToParent | .clearProjectCache
  | .updateProjectProgress => true
  | _ => false

/-- Whether the model is about to go, or gone, at a stage. -/
def isDeleteStage (stage : String) : Bool :=
  ["beforeDelete", "afterDelete", "deleting", "deleted"].contains stage

/-- Lines between braces after a condition. -/
def whenever (condition : String) (body : List String) : List String :=
  ["if (" ++ condition ++ ") \x7b"] ++ body.map ("    " ++ ·) ++ ["\x7d"]

/-- Deletes the file of one field, or the file that a change of the field leaves behind. -/
def cleanupLines (site : HookSite) (name : String) (field : Field) : List String :=
  let subject := site.subject
  let disk := diskOf field
  if isDeleteStage site.stage then
    whenever s!"{subject}->{name}" [s!"Storage::disk('{disk}')->delete({subject}->{name});"]
  else
    whenever s!"{subject}->isDirty('{name}') && {subject}->getOriginal('{name}')"
      [s!"Storage::disk('{disk}')->delete({subject}->getOriginal('{name}'));"]

/-- The body of a built-in action. -/
def builtinLines (site : HookSite) (e : Entity) (message : Option String) :
    BuiltinAction → List String
  | .log =>
    let stage := site.stage
    let text := (message.filter (!·.isEmpty)).getD s!"{stage} event"
    ["Log::info(\"[AI-NATIVE HOOK] " ++ Php.doubleQuoted text ++ "\");"]
  | .sanitizeInput =>
    let subject := site.subject
    if site.onData then
      [s!"{subject} = array_map(fn ($value) => is_string($value) " ++
        s!"? trim(strip_tags($value)) : $value, {subject});"]
    else
      [s!"foreach ({subject}->getDirty() as $key => $value) \x7b",
        "    if (is_string($value)) \x7b",
        s!"        {subject}->\x7b$key\x7d = trim(strip_tags($value));",
        "    \x7d",
        "\x7d"]
  | .generateUuid =>
    let subject := site.subject
    if site.onData then [s!"{subject}['id'] = {subject}['id'] ?? (string) Str::uuid();"]
    else whenever s!"empty({subject}->id)" [s!"{subject}->id = (string) Str::uuid();"]
  | .clearCache =>
    let table := e.table
    [s!"Cache::tags(['{table}'])->flush();"]
  | .cleanupFiles =>
    if e.fileFields.isEmpty then ["// No file fields to clean up"]
    else e.fileFields.flatMap fun (name, field) => cleanupLines site name field
  | .logActivity =>
    let subject := site.subject
    let stage := site.stage
    let name := e.variableName
    [s!"Log::info('{name} activity', [",
      s!"    'model_id' => {subject}->id,",
      s!"    'model_type' => get_class({subject}),",
      s!"    'event' => '{stage}',",
      "]);"]
  | .moveChildrenToParent =>
    let subject := site.subject
    whenever s!"{subject}->children()->count() > 0"
      [s!"{subject}->children()->update([", s!"    'parent_id' => {subject}->parent_id,", "]);"]
  | .clearProjectCache =>
    let subject := site.subject
    whenever s!"{subject}->project"
      [s!"Cache::tags(['project_' . {subject}->project->id])->flush();"]
  | .updateProjectProgress =>
    let subject := site.subject
    whenever s!"{subject}->project" [s!"{subject}->project->updateProgress();"]
  | .clearProjectsCache => ["Cache::tags(['projects'])->flush();"]

/-- The method that a custom action calls. -/
def customMethod (action : Action) : String := Naming.camel action.name

/-- The body lines of an action. -/
def actionLines (site : HookSite) (e : Entity) (action : Action) : List String :=
  match action.builtin? with
  | none =>
    let method := customMethod action
    let subject := site.subject
    [s!"$this->{method}({subject});"]
  | some builtin =>
    if site.onData && needsModel builtin then
      ["// " ++ action.name ++ " needs a saved model; skipped for request data"]
    else builtinLines site e action.message builtin

/-- The class that a built-in action needs. -/
def actionImport? : BuiltinAction → Option String
  | .log | .logActivity => some "Illuminate\\Support\\Facades\\Log"
  | .generateUuid => some "Illuminate\\Support\\Str"
  | .clearCache | .clearProjectCache | .clearProjectsCache =>
    some "Illuminate\\Support\\Facades\\Cache"
  | .cleanupFiles => some "Illuminate\\Support\\Facades\\Storage"
  | _ => none

/-- The classes that actions need. -/
def actionImports (actions : List Action) : List String :=
  actions.filterMap fun a => a.builtin?.bind actionImport?

/-- Of actions that call one method, the first. -/
def firstPerMethod : List String → List Action → List Action
  | _, [] => []
  | seen, action :: rest =>
    let method := customMethod action
    if seen.contains method then firstPerMethod seen rest
    else action :: firstPerMethod (method :: seen) rest

/-- An empty method for each custom action. -/
def stubLines (actions : List Action) (parameter heading : String) : List String :=
  (firstPerMethod [] (actions.filter (·.builtin?.isNone))).flatMap fun action =>
    let method := customMethod action
    "" :: remark (heading ++ " " ++ action.name ++ ".") ++
      Render.method s!"protected function {method}({parameter}): void" ["        //"]

end Scaffold.Render
