import Scaffold.Json
import Scaffold.Text.Blank

/-!
# Hook and observer actions

What runs at a stage of a controller or at an event of a model: actions given by name, or by an
object with a name and a message. Some names are built in; any other becomes a method that the
project's author fills in.
-/

namespace Scaffold
set_option autoImplicit false

/-- The actions with a body of their own. -/
inductive BuiltinAction where
  | log
  | sanitizeInput
  | generateUuid
  | clearCache
  | cleanupFiles
  | logActivity
  | moveChildrenToParent
  | clearProjectCache
  | updateProjectProgress
  | clearProjectsCache
  deriving DecidableEq, Repr

namespace BuiltinAction

def all : List BuiltinAction :=
  [log, sanitizeInput, generateUuid, clearCache, cleanupFiles, logActivity, moveChildrenToParent,
   clearProjectCache, updateProjectProgress, clearProjectsCache]

def name : BuiltinAction → String
  | log => "log"
  | sanitizeInput => "sanitizeInput"
  | generateUuid => "generateUuid"
  | clearCache => "clearCache"
  | cleanupFiles => "cleanupFiles"
  | logActivity => "logActivity"
  | moveChildrenToParent => "moveChildrenToParent"
  | clearProjectCache => "clearProjectCache"
  | updateProjectProgress => "updateProjectProgress"
  | clearProjectsCache => "clearProjectsCache"

def ofName? (text : String) : Option BuiltinAction := all.find? fun a => a.name == text

end BuiltinAction

/-- An action by its name, with the message that goes with it. -/
structure Action where
  name : String
  message : Option String
  deriving DecidableEq, Repr

namespace Action

inductive Fault where
  | emptyName
  | noName
  | notAnAction
  deriving DecidableEq, Repr

def Fault.reason : Fault → String
  | emptyName => "action name is empty"
  | noName => "action object has no 'action' key"
  | notAnAction => "action must be a name or an object"

/-- A value that gives no action. -/
structure Malformed where
  definition : String
  fault : Fault
  deriving DecidableEq, Repr

def Malformed.message (e : Malformed) : String :=
  "Malformed rule '" ++ e.definition ++ "': " ++ e.fault.reason

/-- The body that comes with the name, if the name is built in. -/
def builtin? (action : Action) : Option BuiltinAction := BuiltinAction.ofName? action.name

/-- One action. -/
def ofItem (item : Json) : Except Malformed Action :=
  match item with
  | .string text =>
    let name := Text.strip text
    if name.isEmpty then .error ⟨text, .emptyName⟩ else .ok ⟨name, none⟩
  | .object members =>
    let name := Text.strip (((Json.Members.get? members "action").map Json.plain).getD "")
    if name.isEmpty then .error ⟨item.shown, .noName⟩
    else
      match Json.Members.get? members "message" with
      | none | some .null => .ok ⟨name, none⟩
      | some message => .ok ⟨name, some message.plain⟩
  | _ => .error ⟨item.shown, .notAnAction⟩

/-- The actions of a value in the schema: one, or a list of them. -/
def listOfJson : Json → Except Malformed (List Action)
  | .array items => items.mapM ofItem
  | item => (ofItem item).map ([·])

end Action

/-- The stages at which a controller runs hooks, in their order. -/
def hookStages : List String :=
  ["beforeCreate", "afterCreate", "beforeUpdate", "afterUpdate", "beforeDelete", "afterDelete"]

/-- The events that an observer answers, in their order. -/
def observerEvents : List String :=
  ["creating", "created", "updating", "updated", "saving", "saved", "deleting", "deleted",
   "restoring", "restored"]

end Scaffold
