import Scaffold.Json
import Scaffold.Text.Blank

/-!
# Policy rules

A rule is one condition, several of which any has to hold, between bars, or several that all have
to hold, between commas. A rule with both is read as conditions between bars.
-/

namespace Scaffold
set_option autoImplicit false

/-- One condition on the user and, for most kinds, on the model. -/
inductive Condition where
  | role (roles : List String)
  | owner
  | authenticated
  | isPublic
  | collaborator
  | projectMember
  | projectOwner
  | assignee
  | fieldEquals (field value : String)
  | userField (field : String)
  | predicate (method : String)
  deriving DecidableEq, Repr

namespace Condition

/-- The conditions that are a word of their own. -/
def words : List (String × Condition) :=
  [("owner", owner), ("authenticated", authenticated), ("public", isPublic),
   ("collaborator", collaborator), ("projectMember", projectMember),
   ("projectOwner", projectOwner), ("assignee", assignee)]

/-- The name of a condition's kind. -/
def kind : Condition → String
  | role _ => "role"
  | owner => "owner"
  | authenticated => "authenticated"
  | isPublic => "public"
  | collaborator => "collaborator"
  | projectMember => "projectMember"
  | projectOwner => "projectOwner"
  | assignee => "assignee"
  | fieldEquals .. => "fieldEquals"
  | userField _ => "userField"
  | predicate _ => "predicate"

/-- Fields that are compared with the user's own number. -/
def userFields : List String := ["user_id", "owner_id"]

end Condition

/-- How the conditions of a rule combine. -/
inductive RuleOperator where
  | single
  | any
  | all
  deriving DecidableEq, Repr

def RuleOperator.name : RuleOperator → String
  | single => "single"
  | any => "or"
  | all => "and"

/-- A rule with the text it was read from. -/
structure Rule where
  operator : RuleOperator
  conditions : List Condition
  source : String
  deriving DecidableEq, Repr

namespace Rule

inductive Fault where
  | empty
  | emptyCondition
  | noRoles
  | noField (condition : String)
  deriving DecidableEq, Repr

def Fault.reason : Fault → String
  | empty => "is empty"
  | emptyCondition => "contains an empty condition"
  | noRoles => "role condition names no roles"
  | noField condition => "condition '" ++ condition ++ "' names no field"

/-- A rule that cannot be read. -/
structure Malformed where
  definition : String
  fault : Fault
  deriving DecidableEq, Repr

def Malformed.message (e : Malformed) : String :=
  "Malformed rule '" ++ e.definition ++ "': " ++ e.fault.reason

/-- One condition of a rule. -/
def parseCondition (rule text : String) : Except Malformed Condition :=
  let token := Text.strip text
  if token.isEmpty then .error ⟨rule, .emptyCondition⟩
  else match Text.dropHead? "role:" token with
    | some names =>
      let roles := ((Text.split ',' names).map Text.strip).filter (!·.isEmpty)
      if roles.isEmpty then .error ⟨rule, .noRoles⟩ else .ok (.role roles)
    | none =>
      match Condition.words.find? fun w => w.1 == token, Text.cut? ':' token with
      | some (_, condition), _ => .ok condition
      | none, none => .ok (.predicate token)
      | none, some (field, value) =>
        let field := Text.strip field
        if field.isEmpty then .error ⟨rule, .noField token⟩
        else if Condition.userFields.contains field then .ok (.userField field)
        else .ok (.fieldEquals field (Text.strip value))

/-- The rule that a text describes. -/
def parse (text : String) : Except Malformed Rule :=
  let source := Text.strip text
  if source.isEmpty then .error ⟨text, .empty⟩
  else
    let (operator, parts) :=
      if Text.hasChar '|' source then (RuleOperator.any, Text.split '|' source)
      else if Text.hasChar ',' source then (.all, Text.split ',' source)
      else (.single, [source])
    (parts.mapM (parseCondition source)).map fun conditions => ⟨operator, conditions, source⟩

/-- The rule of a value in the schema, which has to be a text. -/
def ofJson : Json → Except Malformed Rule
  | .string text => parse text
  | value => .error ⟨value.plain, .empty⟩

/-- Whether a rule has both bars and commas. -/
def mixesOperators (rule : Rule) : Bool := rule.operator == .any && Text.hasChar ',' rule.source

end Rule
end Scaffold
