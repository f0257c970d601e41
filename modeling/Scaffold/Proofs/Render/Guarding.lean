import Scaffold.Proofs.OrderedMaps
import Scaffold.Proofs.Php.Statements
import Scaffold.Proofs.Render.Permissions
import Scaffold.Proofs.Schema.Definitions
import Scaffold.Render.Controller
import Scaffold.Render.Policy

/-!
# Middleware and policies

A controller attaches middleware to the methods that policies guard. Where the names of the
middleware survive the quotes they are put in, whoever the policy lets pass passes the middleware of
that method, and no other method's rule has a part in it: `middleware_admits`. A backslash before
another one does not survive them.
-/

namespace Scaffold.Render
set_option autoImplicit false

open Php (Expr Token Statement Says IsVerbatim)

/-! ## What the lines say -/

/-- The middleware that a line of the constructor attaches, and the methods that it attaches it
to. -/
def attachment? : Statement → Option (String × List String)
  | .runs (.call (.member (.call (.member (.var "this") "middleware") [.literal name]) "only")
      [.array items]) =>
    (items.mapM Expr.literal?).map fun methods => (name, methods)
  | _ => none

def attachmentOf? (line : String) : Option (String × List String) :=
  (Statement.ofText? line).bind attachment?

/-- The middleware that the lines attach to a method. -/
def attached (lines : List String) (method : String) : List String :=
  ((lines.filterMap attachmentOf?).filter fun a => a.2.contains method).map (·.1)

/-- The test by which a statement of a policy allows or denies. -/
def test? : Statement → Option Expr
  | .returns (.choice test (.call (.static "Response" "allow") [])
      (.call (.static "Response" "deny") [])) => some test
  | _ => none

/-- The test of a method of a policy: that of its last statement, which stands before the brace that
closes it. -/
def testOf? (lines : List String) : Option Expr :=
  (lines.dropLast.getLast?.bind Statement.ofText?).bind test?

/-- Whether a middleware lets the user pass. One that names roles asks for any of them, one that
authenticates for a user who is logged in. -/
def admits (check : Expr → Bool) (middleware : String) : Bool :=
  match Text.dropHead? "role:" middleware with
  | some roles => (Text.split '|' roles).any fun role => check (hasRole role)
  | none => (middleware == "auth" || middleware == "auth:sanctum") && check isLoggedIn

/-! ## How the lines are read -/

/-- The call that attaches a middleware. -/
def attaching (name : String) (methods : List String) : Expr :=
  .call (.member (.call (.member (.var "this") "middleware") [.literal name]) "only")
    [.array (methods.map .literal)]

variable {name said policy : String} {methods : List String} {test : Expr}

theorem formed_attaching : (attaching name methods).Formed := by
  have this : (Expr.var "this").Formed := .var (by decide)
  have call : (Expr.call (.member (.var "this") "middleware") [.literal name]).Formed :=
    .call (.member this rfl (by decide)) rfl fun e mem => List.mem_singleton.1 mem ▸ .literal
  exact .call (.member call rfl (by decide)) rfl fun e mem => List.mem_singleton.1 mem ▸
    Expr.formed_literals

theorem attachment?_attaching :
    attachment? (.runs (attaching name methods)) = some (name, methods) := by
  simp only [attaching, attachment?, Expr.mapM_literal?, Option.map_some]

/-- The tokens up to the name of a middleware. -/
def beforeName : List Token := [.var "this", .member "middleware", .opening .round]

/-- The tokens after the name of a middleware. -/
def afterName (methods : List String) : List Token :=
  .closing .round :: .member "only" :: .opening .round ::
    ((Expr.array (methods.map .literal)).tokens ++ [.closing .round, .semicolon])

theorem tokens_attaching :
    (attaching name methods).tokens ++ [.semicolon] = beforeName ++
      .literal name :: afterName methods := by
  simp [attaching, beforeName, afterName, Expr.tokens]

theorem reads_beforeName : Token.Reads beforeName :=
  have this : Token.Reads [.var "this"] := .single (by decide)
  have middleware : Token.Reads [.member "middleware"] := .single (by decide)
  this.append rfl (middleware.append rfl (.single rfl))

theorem reads_afterName : Token.Reads (afterName methods) := by
  have only : Token.Reads [.member "only"] := .single (by decide)
  have close : Token.Reads [.closing .round, .semicolon] := .cons rfl rfl (.single rfl)
  exact .cons rfl rfl (only.append
    rfl (.cons rfl rfl (Expr.formed_literals.reads.append rfl close)))

/-- The line that attaches a middleware. -/
def attachingLine (name : String) (methods : List String) : String :=
  s!"        $this->middleware('{name}')->only(" ++ Php.array methods ++ ");"

theorem text_beforeName : Token.text beforeName = "$this->middleware(".toList := by decide

theorem text_afterName :
    Token.text (afterName methods) = ")->only(".toList ++
      ((Php.array methods).toList ++ ");".toList) := by
  rw [afterName, Token.text_cons, Token.text_cons, Token.text_cons, Token.text_append,
    Expr.toList_array, Expr.chars]
  simp [Token.text, Token.chars]

theorem toList_attachingLine : (attachingLine name methods).toList =
    List.replicate 8 ' ' ++ (Token.text beforeName ++
      '\'' :: (name.toList ++ '\'' :: Token.text (afterName methods))) := by
  unfold attachingLine
  simp only [text_beforeName, text_afterName]
  simp [toString]

/-- It attaches the middleware that its name says between the quotes. -/
theorem attachmentOf?_attachingLine (quoted : Says name said) :
    attachmentOf? (attachingLine name methods) = some (said, methods) := by
  have tokens : Php.tokens? (attachingLine name methods).toList =
      some (beforeName ++ .literal said :: afterName methods) := by
    rw [toList_attachingLine, Php.tokens?_gaps (by decide), reads_beforeName _ (by simp; decide),
      Php.tokens?_quoted quoted, reads_afterName.tokens?]
    rfl
  rw [attachmentOf?, Statement.ofText?, tokens, Option.bind_some]
  change ((Php.body? (beforeName ++ .literal said :: afterName methods)).map Statement.runs).bind
    attachment? = _
  rw [← tokens_attaching, Php.body?_tokens formed_attaching]
  exact attachment?_attaching

/-- The choice between allowing and denying. -/
def judging (test : Expr) : Expr :=
  .choice test (.call (.static "Response" "allow") []) (.call (.static "Response" "deny") [])

theorem formed_judging (formed : test.Formed) (tight : 1 ≤ test.level) : (judging test).Formed := by
  have answer {name : String} (named : Php.isName name) :
    (Expr.call (.static "Response" name) []).Formed :=
    .call (.static (by decide) named) rfl (by simp)
  exact .choice formed (answer (by decide)) (answer (by decide)) tight (by simp [Expr.level])
    (by simp [Expr.level])

theorem chars_judging :
    (judging test).chars = test.chars ++ " ? Response::allow() : Response::deny()".toList := by
  simp [judging, Expr.chars, Expr.tokens, Token.text, Token.chars]

/-- The line that answers by a test. -/
def judgingLine (test : String) : String :=
  "        " ++ ("return " ++ test ++ " ? Response::allow() : Response::deny();")

/-- It answers by the test that its text is. -/
theorem test?_judgingLine {text : String} (formed : test.Formed) (tight : 1 ≤ test.level)
    (written : text.toList = test.chars) :
    (Statement.ofText? (judgingLine text)).bind test? = some test := by
  have whole := formed_judging formed tight
  have chars : (judgingLine text).toList = List.replicate 8 ' ' ++
      ((Token.word "return").chars ++ ' ' :: Token.text
        ((judging test).tokens ++ [.semicolon])) := by
    rw [Token.text_append, ← Expr.chars, chars_judging, ← written]
    simp [judgingLine, Token.text, Token.chars]
  have tokens : Php.tokens? (judgingLine text).toList =
      some (.word "return" :: ((judging test).tokens ++ [.semicolon])) := by
    rw [chars, Php.tokens?_gaps (by decide), Php.tokens?_chars (by decide) fun _ c mem =>
      by cases mem; decide, Php.tokens?_gap (by decide),
      (whole.reads.append rfl (.single rfl)).tokens?]
    rfl
  rw [Statement.ofText?, tokens, Option.bind_some, Statement.ofTokens?, Php.body?_tokens whole]
  rfl

/-- The test of a method of a policy is the expression of its rule. -/
theorem testOf?_policyMethod {e : Entity} {rule : Rule} (ruled : e.policies.get? policy = some rule)
    (whole : rule.IsWhole) (named : ∀ c ∈ rule.conditions, c.isNamed)
    (held : Php.isName (rowVariable e)) :
    testOf? (policyMethod e policy) = some (rule.expr (rowVariable e) (getsRow policy)) := by
  obtain ⟨formed, tight⟩ := Rule.formed_expr (getsRow policy) whole named held
  have line : (policyMethod e policy).dropLast.getLast? =
      some (judgingLine (ruleText (rowVariable e) (getsRow policy) rule)) := by
    simp [policyMethod, Render.method, remark, ruled, judgingLine]
  rw [testOf?, line, Option.bind_some]
  exact test?_judgingLine formed tight (toList_ruleText whole)

/-! ## What is attached to which method -/

/-- What stands under a name when values were put under names one after another. -/
theorem mem_grouped {pairs : List (String × String)} {map : OrderedMap (List String)}
    {key value : String} : (∃ values, (key, values) ∈ (pairs.foldl (fun map (name, method) =>
        map.insert name ((map.get? name).getD [] ++ [method])) map).entries ∧ value ∈ values) ↔
      (∃ values, (key, values) ∈ map.entries ∧ value ∈ values) ∨ (key, value) ∈ pairs := by
  induction pairs generalizing map with
  | nil => simp
  | cons pair pairs ih =>
    obtain ⟨name, method⟩ := pair
    rw [List.foldl_cons, ih, List.mem_cons, ← or_assoc]
    refine or_congr_left ?_
    by_cases same : key = name
    · subst same
      have old : value ∈ (map.get? key).getD [] ↔ ∃ values, (key, values) ∈ map.entries ∧
          value ∈ values := by
        simp only [← OrderedMap.get?_eq_some]
        cases map.get? key <;> simp
      simp [OrderedMap.mem_insert, old]
    · simp [OrderedMap.mem_insert, same]

variable {s s' : Schema} {e e' : Entity} {rule : Rule} {route : RouteAction} {method : String}

/-- A middleware guards a method if a policy of the method's route has a rule that implies it. -/
theorem mem_guards : (∃ methods, (name, methods) ∈ (guards s e).entries ∧ method ∈ methods) ↔
    ∃ policy rule route, e.policies.get? policy = some rule ∧ guardedRoute? policy = some route ∧
      route ∈ e.routes ∧ name ∈ ruleMiddleware s rule ∧ route.method = method := by
  refine mem_grouped.trans ?_
  simp only [OrderedMap.empty, List.not_mem_nil, false_and, exists_false, false_or,
    List.mem_flatMap, Prod.exists, OrderedMap.get?_eq_some]
  refine exists_congr fun policy => exists_congr fun rule => ?_
  cases guarded : guardedRoute? policy with
  | none => simp
  | some route =>
    by_cases routed : route ∈ e.routes
    · simp [routed]
    · simp [routed]

theorem method_injective {route other : RouteAction} (h : route.method = other.method) :
    route = other := by
  cases route <;> cases other <;> first | rfl | exact absurd h (by decide)

/-- The policy that guards a route. -/
def guardOf : RouteAction → String
  | .list => "viewAny"
  | .display => "view"
  | .create => "create"
  | .update => "update"
  | .delete => "delete"

theorem eq_guardOf (h : guardedRoute? policy = some route) : policy = guardOf route := by
  unfold guardedRoute? at h
  split at h <;> cases h <;> rfl

/-- The middleware of a route's method is that of the rule which the route's own policy has. -/
theorem mem_guards_method (guarded : guardedRoute? policy = some route) :
    (∃ methods, (name, methods) ∈ (guards s e).entries ∧ route.method ∈ methods) ↔
      route ∈ e.routes ∧ ∃ rule, e.policies.get? policy = some rule ∧
      name ∈ ruleMiddleware s rule := by
  rw [mem_guards]
  constructor
  · rintro ⟨other, rule, otherRoute, ruled, otherGuarded, routed, implied, same⟩
    obtain rfl := method_injective same
    obtain rfl : other = policy := (eq_guardOf otherGuarded).trans (eq_guardOf guarded).symm
    exact ⟨routed, rule, ruled, implied⟩
  · rintro ⟨routed, rule, ruled, implied⟩
    exact ⟨policy, rule, route, ruled, guarded, routed, implied, rfl⟩

theorem middlewareLines_eq :
    middlewareLines s e = (guards s e).entries.map fun a => attachingLine a.1 a.2 := rfl

theorem attachments (verbatim : ∀ name ∈ (guards s e).keys, IsVerbatim name) :
    (middlewareLines s e).map attachmentOf? = (guards s e).entries.map some := by
  rw [middlewareLines_eq, List.map_map]
  exact List.map_congr_left fun a mem =>
    attachmentOf?_attachingLine (verbatim a.1 (List.mem_map_of_mem mem))

theorem mem_attached (verbatim : ∀ name ∈ (guards s e).keys, IsVerbatim name) :
    name ∈ attached (middlewareLines s e) method ↔
      ∃ methods, (name, methods) ∈ (guards s e).entries ∧ method ∈ methods := by
  have each : (middlewareLines s e).filterMap attachmentOf? = (guards s e).entries := by
    have same := congrArg (List.filterMap id) (attachments verbatim)
    simpa [List.filterMap_map] using same
  simp [attached, each]

/-! ## Who passes -/

variable {check : Expr → Bool}

theorem admits_roleMiddleware {roles : List String} (filled : roles ≠ [])
    (clear : ∀ role ∈ roles, '|' ∉ role.toList) :
    admits check (roleMiddleware roles) = roles.any fun role => check (hasRole role) := by
  rw [admits, roleMiddleware, Text.dropHead?_append]
  dsimp only
  rw [Text.split_joined rfl filled clear]

theorem admits_authMiddleware : admits check (authMiddleware s) = check isLoggedIn := by
  have auth : Text.dropHead? "role:" "auth" = none := by decide
  have sanctum : Text.dropHead? "role:" "auth:sanctum" = none := by decide
  unfold authMiddleware
  split
  · simp [admits, sanctum]
  · simp [admits, auth]

theorem eq_map_role {conditions : List Condition} {lists : List (List String)}
    (h : conditions.mapM roles? = some lists) : conditions = lists.map .role := by
  induction conditions generalizing lists with
  | nil =>
    obtain rfl := Option.some.inj h
    rfl
  | cons c conditions ih =>
    rw [List.mapM_cons] at h
    obtain ⟨roles, asked, h⟩ := Option.bind_eq_some_iff.1 h
    obtain ⟨lists, more, same⟩ := Option.bind_eq_some_iff.1 h
    obtain rfl := Option.some.inj same
    rw [ih more]
    cases c with
    | role =>
      obtain rfl := Option.some.inj asked
      rfl
    | _ => cases asked

/-- Of alternatives that are all roles one middleware covers every role, and of other rules each
role and the login imply one. -/
theorem mem_ruleMiddleware (implied : name ∈ ruleMiddleware s rule) :
    (rule.operator = .any ∧
      ∃ lists : List (List String), rule.conditions = lists.map .role ∧
      name = roleMiddleware lists.flatten) ∨
    rule.operator ≠ .any ∧ ∃ c ∈ rule.conditions,
      (∃ roles, c = .role roles ∧ name = roleMiddleware roles) ∨ c = .authenticated ∧
      name = authMiddleware s := by
  unfold ruleMiddleware at implied
  split at implied
  · rename_i any
    split at implied
    · rename_i lists asked
      exact .inl ⟨any, lists, eq_map_role asked, List.mem_singleton.1 implied⟩
    · exact absurd implied List.not_mem_nil
  · rename_i operator
    obtain ⟨c, mem, asks⟩ := List.mem_filterMap.1 implied
    refine .inr ⟨operator, c, mem, ?_⟩
    cases c with
    | role roles => exact .inl ⟨roles, rfl, (Option.some.inj asks).symm⟩
    | authenticated => exact .inr ⟨rfl, (Option.some.inj asks).symm⟩
    | _ => cases asks

/-- Whoever satisfies a rule passes the middleware that it implies. -/
theorem admits_of_holds {holder : String} {hasModel : Bool} (whole : rule.IsWhole)
    (implied : name ∈ ruleMiddleware s rule) (holds : rule.holds check holder hasModel) :
    admits check name := by
  have asked {roles : List String} (mem : .role roles ∈ rule.conditions) :
      roles ≠ [] ∧ ∀ role ∈ roles, '|' ∉ role.toList :=
    ((whole.conditions _ mem).roles roles rfl).imp_right fun each role mem => (each role mem).2
  unfold Rule.holds at holds
  rcases mem_ruleMiddleware implied with ⟨any, lists, conditions, rfl⟩ | ⟨notAny, c, mem, asks⟩
  · rw [any] at holds
    obtain ⟨c, mem, holds⟩ := List.any_eq_true.1 holds
    obtain ⟨list, isList, rfl⟩ := List.mem_map.1 (conditions ▸ mem)
    obtain ⟨role, isRole, has⟩ := List.any_eq_true.1 holds
    have isRole : role ∈ lists.flatten := List.mem_flatten.2 ⟨list, isList, isRole⟩
    have clear : ∀ role ∈ lists.flatten, '|' ∉ role.toList := by
      intro role mem
      obtain ⟨list, isList, mem⟩ := List.mem_flatten.1 mem
      exact (asked (conditions ▸ List.mem_map_of_mem isList)).2 role mem
    rw [admits_roleMiddleware (List.ne_nil_of_mem isRole) clear]
    exact List.any_eq_true.2 ⟨role, isRole, has⟩
  · have all : rule.conditions.all (·.holds check holder hasModel) := by
      cases operator : rule.operator with
      | any => exact absurd operator notAny
      | single | all =>
        rw [operator] at holds
        exact holds
    have holds := List.all_eq_true.1 all c mem
    rcases asks with ⟨roles, rfl, rfl⟩ | ⟨rfl, rfl⟩
    · rw [admits_roleMiddleware (asked mem).1 (asked mem).2]
      exact holds
    · rw [admits_authMiddleware]
      exact holds

/-! ## Nobody is kept out -/

/-- The lines about an entity never keep anyone from a method whom its policy lets pass. -/
structure NeverDenies (s : Schema) (e : Entity) : Prop where
  attaches : ∀ line ∈ middlewareLines s e, ∃ attachment, attachmentOf? line = some attachment
  passes : ∀ policy route rule, guardedRoute? policy = some route → route ∈ e.routes →
    e.policies.get? policy = some rule → (∀ c ∈ rule.conditions, c.isNamed) →
      ∃ test, testOf? (policyMethod e policy) = some test ∧
        ∀ check : Expr → Bool, test.holds check →
        ∀ name ∈ attached (middlewareLines s e) route.method,
          admits check name

/-- What is attached to the method of a route is the same for another entity with this route and
this route's rule, whatever the rules of other routes are. -/
def IsIndependent (s : Schema) (e : Entity) : Prop :=
  ∀ policy route, guardedRoute? policy = some route → ∀ (s' : Schema) (e' : Entity),
    (∀ name ∈ (guards s' e').keys, IsVerbatim name) → s'.auth.usesTokens = s.auth.usesTokens →
    (route ∈ e'.routes ↔ route ∈ e.routes) → e'.policies.get? policy = e.policies.get? policy →
      ∀ name, name ∈ attached (middlewareLines s' e') route.method ↔
        name ∈ attached (middlewareLines s e) route.method

theorem isIndependent (verbatim : ∀ name ∈ (guards s e).keys, IsVerbatim name) :
    IsIndependent s e := by
  intro policy route guarded s' e' verbatim' tokens routed ruled name
  have implied (rule : Rule) : ruleMiddleware s' rule = ruleMiddleware s rule := by
    simp only [ruleMiddleware, authMiddleware, tokens]
  rw [mem_attached verbatim', mem_attached verbatim, mem_guards_method guarded,
    mem_guards_method guarded, ruled, routed]
  simp only [implied]

/-- Middleware whose names say themselves between quotes keeps nobody out whom the policy lets pass,
and that of one method hangs on no other method's rule. -/
theorem middleware_admits {document : Json.Members} (built : Schema.build document = .ok s)
    (mem : e ∈ s.entities.values) (held : Php.isName (rowVariable e))
    (verbatim : ∀ name ∈ (guards s e).keys, IsVerbatim name) :
    NeverDenies s e ∧ IsIndependent s e := by
  refine ⟨⟨fun line isLine => ?_, fun policy route rule guarded routed ruled named => ?_⟩,
    isIndependent verbatim⟩
  · have isAttached : attachmentOf? line ∈ (guards s e).entries.map some :=
      attachments verbatim ▸ List.mem_map_of_mem isLine
    obtain ⟨attachment, -, same⟩ := List.mem_map.1 isAttached
    exact ⟨attachment, same.symm⟩
  · obtain ⟨text, read⟩ :=
      (Schema.isRead_of_build built).rules e mem _ (OrderedMap.mem_of_get? ruled)
    have whole := Rule.isWhole_of_parse read
    refine ⟨_, testOf?_policyMethod ruled whole named held, fun check holds name isAttached => ?_⟩
    rw [Rule.holds_expr whole] at holds
    obtain ⟨-, other, ruled', implied⟩ :=
      (mem_guards_method guarded).1 ((mem_attached verbatim).1 isAttached)
    obtain rfl := Option.some.inj (ruled.symm.trans ruled')
    exact admits_of_holds whole implied holds

/-- A document with one model that is routed and whose policies have the given rules. -/
def withPolicies (policies : List (String × String)) : Json.Members :=
  [("meta", .object []),
    ("models", .object [("Tag", .object [("fields", .object [("label", .string "string")]),
      ("routes", .array [.string "list", .string "create", .string "update"]),
      ("policies", .object (policies.map fun p => (p.1, .string p.2)))])])]

/-- Roles of two alternatives, one with a backslash, guard one method, and a login and a role
another. -/
def roleRules : List (String × String) :=
  [("update", "role:admin,a\\b|role:owner"), ("viewAny", "owner|public"),
    ("create", "authenticated,role:admin")]

/-- The middleware that these rules imply keeps nobody out. -/
theorem middleware_admits_roleRules :
    ∃ s e, Schema.build (withPolicies roleRules) = .ok s ∧ e ∈ s.entities.values ∧
      (guards s e).entries =
        [("role:admin|a\\b|owner", ["update"]), ("auth:sanctum", ["store"]),
          ("role:admin", ["store"])] ∧
      NeverDenies s e ∧ IsIndependent s e := by
  have checked : succeeds (Schema.build (withPolicies roleRules))
      (fun s => (s.entities.get? "Tag").any fun e =>
        Php.isName (rowVariable e) && (guards s e).entries ==
          [("role:admin|a\\b|owner", ["update"]), ("auth:sanctum", ["store"]),
            ("role:admin", ["store"])]) = true := by
    decide +kernel
  obtain ⟨s, built, holds⟩ := succeeds_eq_true.1 checked
  simp only [Bool.and_eq_true, Option.any_eq_true, beq_iff_eq] at holds
  obtain ⟨e, found, held, entries⟩ := holds
  have mem : e ∈ s.entities.values := OrderedMap.mem_values.2 ⟨_, found⟩
  have verbatim : ∀ name ∈ (guards s e).keys, IsVerbatim name := by
    rw [OrderedMap.keys, entries]
    decide
  obtain ⟨denies, independent⟩ := middleware_admits built mem held verbatim
  exact ⟨s, e, built, mem, entries, denies, independent⟩

/-- The checks of a user who has one role and nothing else. -/
def hasOnly (role : String) : Expr → Bool
  | .call _ [.literal asked] => asked == role
  | _ => false

/-- A role with two backslashes in a row: the policy asks for it as it is, and the middleware for
one with a single backslash. So whoever has the role passes the policy, and is kept out all the
same. -/
theorem backslashes_keep_out : ¬ ∀ (document : Json.Members) (s : Schema) (e : Entity),
    Schema.build document = .ok s → e ∈ s.entities.values → Php.isName (rowVariable e) →
    NeverDenies s e := by
  intro claimed
  let rule : Rule := ⟨.single, [.role ["a\\\\b"]], "role:a\\\\b"⟩
  have checked : succeeds (Schema.build (withPolicies [("update", "role:a\\\\b")])) (fun s =>
      (s.entities.get? "Tag").any fun e => Php.isName (rowVariable e) &&
        e.routes.contains .update && e.policies.get? "update" == some rule &&
        (guards s e).entries == [("role:a\\\\b", ["update"])]) = true := by
    decide +kernel
  obtain ⟨s, built, holds⟩ := succeeds_eq_true.1 checked
  simp only [Bool.and_eq_true, Option.any_eq_true, beq_iff_eq] at holds
  obtain ⟨e, found, ⟨⟨held, routed⟩, ruled⟩, entries⟩ := holds
  have denies := claimed _ s e built (OrderedMap.mem_values.2 ⟨_, found⟩) held
  obtain ⟨test, isTest, passes⟩ :=
    denies.passes "update" .update rule rfl (List.contains_iff_mem.1 routed) ruled
    (by decide +kernel)
  have read : Rule.parse "role:a\\\\b" = .ok rule := by decide +kernel
  have whole := Rule.isWhole_of_parse read
  obtain rfl :=
    Option.some.inj (isTest.symm.trans (testOf?_policyMethod ruled whole (by decide +kernel) held))
  have line : middlewareLines s e = [attachingLine "role:a\\\\b" ["update"]] := by
    rw [middlewareLines_eq, entries]
    rfl
  have isAttached : "role:a\\b" ∈ attached (middlewareLines s e) "update" := by
    have reads :
      attachmentOf? (attachingLine "role:a\\\\b" ["update"]) = some ("role:a\\b", ["update"]) :=
      attachmentOf?_attachingLine (by decide)
    simp [line, attached, reads]
  have allowed :
      (rule.expr (rowVariable e) (getsRow "update")).holds (hasOnly "a\\\\b") = true := by
    rw [Rule.holds_expr whole]
    simp [rule, Rule.holds, Condition.holds, hasRole, hasOnly]
  have admitted := passes _ allowed _ isAttached
  exact absurd admitted (by decide +kernel)

end Scaffold.Render
