import Scaffold.Definition.Rule
import Scaffold.Php

/-!
# Permissions

A policy rule as a PHP truth value over `$user` and the variable that holds a model. Where a method
gets no model, a condition that reads one is false.
-/

namespace Scaffold.Render
set_option autoImplicit false

/-- Whether a condition reads the model. -/
def readsModel : Condition → Bool
  | .role _ | .authenticated | .predicate _ => false
  | _ => true

/-- The expression of one condition. -/
def conditionText (holder : String) (hasModel : Bool) (c : Condition) : String :=
  let model := "$" ++ holder
  if readsModel c && !hasModel then "false"
  else match c with
    | .role roles =>
      match roles.map fun r => "$user->hasRole(" ++ Php.literal r ++ ")" with
      | [check] => check
      | checks => "(" ++ Text.join " || " checks ++ ")"
    | .owner => s!"$user->id === {model}->user_id"
    | .authenticated => "$user !== null"
    | .isPublic => s!"{model}->is_public === true"
    | .collaborator => s!"{model}->collaborators->contains($user->id)"
    | .projectMember =>
      s!"({model}->project->collaborators->contains($user->id)" ++
        s!" || {model}->project->user_id === $user->id)"
    | .projectOwner => s!"{model}->project->user_id === $user->id"
    | .assignee => s!"{model}->user_id === $user->id"
    | .userField field => s!"$user->id === {model}->{field}"
    | .fieldEquals field value => s!"{model}->{field} === " ++ Php.literal value
    | .predicate method => s!"$user->{method}()"

/-- The expression of a rule. -/
def ruleText (holder : String) (hasModel : Bool) (rule : Rule) : String :=
  let parts := rule.conditions.map (conditionText holder hasModel)
  match rule.operator with
  | .single => parts.head?.getD ""
  | .any => "(" ++ Text.join " || " parts ++ ")"
  | .all => "(" ++ Text.join " && " parts ++ ")"

end Scaffold.Render
