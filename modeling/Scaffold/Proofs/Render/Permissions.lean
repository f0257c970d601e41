import Scaffold.Proofs.Definition.Rules
import Scaffold.Proofs.Php.Expressions
import Scaffold.Render.Permission

/-!
# What a permission says

The truth of a rule is that of its conditions: any of them between bars, all of them between commas.
The text that a policy gets for a rule, read as the language reads it, has this truth whatever the
single checks answer: `Rule.holds_ruleText`.
-/

namespace Scaffold
set_option autoImplicit false

open Php (Expr Token)

namespace Render

/-! ## The checks -/

/-- The user who asks. -/
def theUser : Expr := .var "user"

def userId : Expr := .member theUser "id"

def hasRole (role : String) : Expr := .call (.member theUser "hasRole") [.literal role]

def isLoggedIn : Expr := .compare .differs theUser (.word "null")

/-- The user's own number is that of a column. -/
def isUserId (column : Expr) : Expr := .compare .identical userId column

def areCollaborators (owner : Expr) : Expr :=
  .call (.member (.member owner "collaborators") "contains") [userId]

end Render

open Render

/-! ## Truth -/

/-- Whether a condition holds, given the truth of the checks on the user and on the model in a
variable. Without a model no condition holds that reads it. -/
def Condition.holds (check : Expr → Bool) (holder : String) (hasModel : Bool) : Condition → Bool :=
  let model : Expr := .var holder
  let project : Expr := .member model "project"
  fun
  | .role roles => roles.any fun r => check (hasRole r)
  | .authenticated => check isLoggedIn
  | .predicate method => check (.call (.member theUser method) [])
  | .owner => hasModel && check (isUserId (.member model "user_id"))
  | .isPublic => hasModel && check (.compare .identical (.member model "is_public") (.word "true"))
  | .collaborator => hasModel && check (areCollaborators model)
  | .projectMember =>
    hasModel && (check (areCollaborators project) ||
      check (.compare .identical (.member project "user_id") userId))
  | .projectOwner => hasModel && check (.compare .identical (.member project "user_id") userId)
  | .assignee => hasModel && check (.compare .identical (.member model "user_id") userId)
  | .userField field => hasModel && check (isUserId (.member model field))
  | .fieldEquals field value =>
    hasModel && check (.compare .identical (.member model field) (.literal value))

def Rule.holds (check : Expr → Bool) (holder : String) (hasModel : Bool) (rule : Rule) : Bool :=
  match rule.operator with
  | .any => rule.conditions.any (·.holds check holder hasModel)
  | .single | .all => rule.conditions.all (·.holds check holder hasModel)

/-- Whether the fields and methods that a condition asks for are names of the language. -/
def Condition.isNamed : Condition → Bool
  | .userField name | .fieldEquals name _ | .predicate name => Php.isName name
  | _ => true

/-! ## The expressions -/

/-- The expression of a condition. -/
def Condition.expr (holder : String) (hasModel : Bool) (c : Condition) : Expr :=
  let model : Expr := .var holder
  let project : Expr := .member model "project"
  if readsModel c && !hasModel then .word "false"
  else match c with
    | .role [only] => hasRole only
    | .role roles => .group (.joined .either (roles.map hasRole))
    | .authenticated => isLoggedIn
    | .predicate method => .call (.member theUser method) []
    | .owner => isUserId (.member model "user_id")
    | .isPublic => .compare .identical (.member model "is_public") (.word "true")
    | .collaborator => areCollaborators model
    | .projectMember =>
      .group (.either (areCollaborators project)
        (.compare .identical (.member project "user_id") userId))
    | .projectOwner => .compare .identical (.member project "user_id") userId
    | .assignee => .compare .identical (.member model "user_id") userId
    | .userField field => isUserId (.member model field)
    | .fieldEquals field value => .compare .identical (.member model field) (.literal value)

/-- The expression of a rule. -/
def Rule.expr (holder : String) (hasModel : Bool) (rule : Rule) : Expr :=
  let parts := rule.conditions.map (Condition.expr holder hasModel)
  match rule.operator with
  | .single => .joined .both parts
  | .any => .group (.joined .either parts)
  | .all => .group (.joined .both parts)

variable {c : Condition} {rule : Rule} {holder text : String} {hasModel : Bool}
  {check : Expr → Bool}

namespace Render

/-- Roles that are asked for are one or several. -/
theorem one_or_several {roles : List String} (filled : roles ≠ []) :
    (∃ only, roles = [only]) ∨ ∃ first second more, roles = first :: second :: more := by
  cases roles with
  | nil => exact absurd rfl filled
  | cons first rest =>
    cases rest with
    | nil => exact .inl ⟨first, rfl⟩
    | cons second more => exact .inr ⟨first, second, more, rfl⟩

/-! ## The texts are those of the expressions -/

/-- Texts between brackets with an operator between them. -/
theorem toList_joined {operator : Expr → Expr → Expr} {token : Token} {k : Nat}
    (h : Expr.IsOperator operator token k) {sep : String} (between : sep.toList = token.chars)
    {texts : List String} {parts : List Expr}
    (each : texts.map String.toList = parts.map Expr.chars) (filled : parts ≠ []) :
    ("(" ++ Text.join sep texts ++ ")").toList = (Expr.group (.joined operator parts)).chars := by
  rw [Expr.chars_group, h.chars_joined filled, ← each, ← between, ← Text.toList_join]
  simp

theorem toList_hasRole (role : String) :
    ("$user->hasRole(" ++ Php.literal role ++ ")").toList = (hasRole role).chars := by
  simp [Expr.chars, Expr.tokens, Token.text, Token.chars, hasRole, theUser]

theorem toList_conditionText (whole : c.IsWhole) :
    (conditionText holder hasModel c).toList = (c.expr holder hasModel).chars := by
  unfold conditionText Condition.expr
  dsimp only
  split
  · simp [Expr.chars, Expr.tokens, Token.text, Token.chars]
  · cases c with
    | role roles =>
      have each : (roles.map fun r => "$user->hasRole(" ++ Php.literal r ++ ")").map String.toList =
          (roles.map hasRole).map Expr.chars := by
        rw [List.map_map, List.map_map]
        exact List.map_congr_left fun role _ => toList_hasRole role
      rcases one_or_several (whole.roles roles rfl).1 with ⟨only, rfl⟩ | ⟨first, second, more, rfl⟩
      · exact toList_hasRole only
      · exact toList_joined Expr.isOperator_either rfl each (by simp)
    | _ =>
      simp [Expr.chars, Expr.tokens, Token.text, Token.chars, isUserId, userId, areCollaborators,
        isLoggedIn, theUser, Php.literal, toString]

theorem toList_ruleText (whole : rule.IsWhole) :
    (ruleText holder hasModel rule).toList = (rule.expr holder hasModel).chars := by
  have each : (rule.conditions.map (conditionText holder hasModel)).map String.toList =
      (rule.conditions.map (Condition.expr holder hasModel)).map Expr.chars := by
    rw [List.map_map, List.map_map]
    exact List.map_congr_left fun c mem => toList_conditionText (whole.conditions c mem)
  have filled : rule.conditions.map (Condition.expr holder hasModel) ≠ [] := by
    simpa using whole.filled
  unfold ruleText Rule.expr
  cases operator : rule.operator with
  | single =>
    obtain ⟨c, only⟩ := whole.single operator
    simpa [only, Expr.joined] using each
  | any => exact toList_joined Expr.isOperator_either rfl each filled
  | all => exact toList_joined Expr.isOperator_both rfl each filled

/-! ## The expressions have the brackets they need -/

theorem formed_theUser : theUser.Formed := .var (by decide)

theorem formed_userId : userId.Formed := .member formed_theUser rfl (by decide)

theorem formed_hasRole (role : String) : (hasRole role).Formed :=
  .call (.member formed_theUser rfl (by decide)) rfl fun e mem =>
    List.mem_singleton.1 mem ▸ .literal

theorem formed_areCollaborators {owner : Expr} (formed : owner.Formed) (tight : owner.level = 4) :
    (areCollaborators owner).Formed :=
  .call (.member (.member formed tight (by decide)) rfl (by decide)) rfl fun e mem =>
    List.mem_singleton.1 mem ▸ formed_userId

end Render

/-- The expression of a condition, which no operator of a rule tears apart. -/
theorem Condition.formed_expr (whole : c.IsWhole) (named : c.isNamed) (held : Php.isName holder) :
    (c.expr holder hasModel).Formed ∧ 3 ≤ (c.expr holder hasModel).level := by
  have model : (Expr.var holder).Formed := .var held
  have column {name : String} (named : Php.isName name) : (Expr.member (.var holder) name).Formed :=
    .member model rfl named
  have project : (Expr.member (.var holder) "project").Formed := column (by decide)
  have owner : (Expr.member (.member (.var holder) "project") "user_id").Formed :=
    .member project rfl (by decide)
  unfold Condition.expr
  dsimp only
  split
  · exact ⟨.word (by decide), by simp [Expr.level]⟩
  · cases c with
    | role roles =>
      rcases one_or_several (whole.roles roles rfl).1 with ⟨only, rfl⟩ | ⟨first, second, more, rfl⟩
      · exact ⟨formed_hasRole only, by simp [Expr.level, hasRole]⟩
      · refine ⟨.group (Expr.isOperator_either.formed_joined (by simp) fun part mem => ?_),
          by simp [Expr.level]⟩
        obtain ⟨role, -, rfl⟩ := List.mem_map.1 mem
        exact ⟨formed_hasRole role, by simp [Expr.level, hasRole]⟩
    | authenticated => exact ⟨.compare formed_theUser (.word (by decide)) rfl rfl, le_rfl⟩
    | predicate method =>
      exact ⟨.call (.member formed_theUser rfl named) rfl (by simp), by simp [Expr.level]⟩
    | owner => exact ⟨.compare formed_userId (column (by decide)) rfl rfl, le_rfl⟩
    | isPublic => exact ⟨.compare (column (by decide)) (.word (by decide)) rfl rfl, le_rfl⟩
    | collaborator =>
      exact ⟨formed_areCollaborators model rfl, by simp [Expr.level, areCollaborators]⟩
    | projectMember =>
      refine ⟨.group (.either (formed_areCollaborators project rfl)
        (.compare owner formed_userId rfl rfl) ?_ ?_), ?_⟩ <;>
        simp [Expr.level, areCollaborators]
    | projectOwner => exact ⟨.compare owner formed_userId rfl rfl, le_rfl⟩
    | assignee => exact ⟨.compare (column (by decide)) formed_userId rfl rfl, le_rfl⟩
    | userField field => exact ⟨.compare formed_userId (column named) rfl rfl, le_rfl⟩
    | fieldEquals field value => exact ⟨.compare (column named) .literal rfl rfl, le_rfl⟩

/-- The expression of a rule, which may be the test of a choice. -/
theorem Rule.formed_expr (hasModel : Bool) (whole : rule.IsWhole)
    (named : ∀ c ∈ rule.conditions, c.isNamed) (held : Php.isName holder) :
    (rule.expr holder hasModel).Formed ∧ 1 ≤ (rule.expr holder hasModel).level := by
  have each : ∀ part ∈ rule.conditions.map (Condition.expr holder hasModel), part.Formed ∧
      3 ≤ part.level := by
    intro part mem
    obtain ⟨c, isCondition, rfl⟩ := List.mem_map.1 mem
    exact c.formed_expr (whole.conditions c isCondition) (named c isCondition) held
  have filled : rule.conditions.map (Condition.expr holder hasModel) ≠ [] := by
    simpa using whole.filled
  unfold Rule.expr
  cases operator : rule.operator with
  | single =>
    obtain ⟨c, only⟩ := whole.single operator
    obtain ⟨formed, tight⟩ := each (c.expr holder hasModel) (by simp [only])
    rw [only]
    exact ⟨formed, Nat.le_trans (by omega) tight⟩
  | any =>
    exact ⟨.group (Expr.isOperator_either.formed_joined filled fun part mem =>
      ⟨(each part mem).1, Nat.lt_of_lt_of_le (by omega) (each part mem).2⟩), by simp [Expr.level]⟩
  | all => exact ⟨.group (Expr.isOperator_both.formed_joined filled each), by simp [Expr.level]⟩

/-! ## The expressions are true as the rules are -/

theorem Condition.holds_expr (whole : c.IsWhole) :
    (c.expr holder hasModel).holds check = c.holds check holder hasModel := by
  cases c with
  | role roles =>
    rcases one_or_several (whole.roles roles rfl).1 with ⟨only, rfl⟩ | ⟨first, second, more, rfl⟩
    · simp [Condition.expr, readsModel, hasRole, Expr.holds, Condition.holds]
    · simp only [Condition.expr, readsModel, Bool.false_and, if_neg Bool.false_ne_true, Expr.holds]
      rw [Expr.holds_joined_either (by simp), List.any_map]
      rfl
  | _ =>
    cases hasModel <;>
      simp [Condition.expr, readsModel, Expr.holds, Condition.holds, isUserId,
        areCollaborators, isLoggedIn]

theorem Rule.holds_expr (whole : rule.IsWhole) :
    (rule.expr holder hasModel).holds check = rule.holds check holder hasModel := by
  have filled : rule.conditions.map (Condition.expr holder hasModel) ≠ [] := by
    simpa using whole.filled
  have each : rule.conditions.map (fun c => (c.expr holder hasModel).holds check) =
      rule.conditions.map (·.holds check holder hasModel) :=
    List.map_congr_left fun c mem => c.holds_expr (whole.conditions c mem)
  have all :
      (Expr.joined .both (rule.conditions.map (Condition.expr holder hasModel))).holds check =
      rule.conditions.all (·.holds check holder hasModel) := by
    rw [Expr.holds_joined_both filled, List.all_map]
    simpa [Function.comp_def] using congrArg (·.all id) each
  unfold Rule.expr Rule.holds
  cases rule.operator with
  | single | all => exact all
  | any =>
    refine (Expr.holds_joined_either filled).trans ?_
    rw [List.any_map]
    simpa [Function.comp_def] using congrArg (·.any id) each

/-- The text of a rule that was read, as the language reads it, is true just when the rule is. -/
theorem Rule.holds_ruleText (read : Rule.parse text = .ok rule)
    (named : ∀ c ∈ rule.conditions, c.isNamed) (holder : String) (held : Php.isName holder)
    (hasModel : Bool) :
    ∃ e, Expr.ofText? (ruleText holder hasModel rule) = some e ∧
      ∀ check, e.holds check = rule.holds check holder hasModel :=
  have whole := Rule.isWhole_of_parse read
  ⟨_, (Rule.formed_expr hasModel whole named held).1.ofText? (toList_ruleText whole),
    fun _ => Rule.holds_expr whole⟩

/-- Roles with marks that a literal escapes, a condition of two checks and a comparison, any of
which is enough. -/
theorem Rule.holds_ruleText_marks :
    ∃ rule, Rule.parse "role:o'brien, a\\b | projectMember | status: it's" = .ok rule ∧
      ∃ e, Expr.ofText? (Render.ruleText "post" true rule) = some e ∧
        ∀ check, e.holds check =
          (check (hasRole "o'brien") || check (hasRole "a\\b") ||
            check (areCollaborators (.member (.var "post") "project")) ||
            check (.compare .identical
              (.member (.member (.var "post") "project") "user_id") userId) ||
            check (.compare .identical (.member (.var "post") "status") (.literal "it's"))) := by
  have read : Rule.parse "role:o'brien, a\\b | projectMember | status: it's" =
      .ok ⟨.any, [.role ["o'brien", "a\\b"], .projectMember, .fieldEquals "status" "it's"],
        "role:o'brien, a\\b | projectMember | status: it's"⟩ := by decide +kernel
  obtain ⟨e, isRead, holds⟩ := Rule.holds_ruleText read (by decide +kernel) "post" (by decide) true
  refine ⟨_, read, e, isRead, fun check => (holds check).trans ?_⟩
  simp [Rule.holds, Condition.holds, Bool.or_assoc]

end Scaffold
