import Scaffold.Json
import Scaffold.Text.Blank

/-!
# Relation definitions

A relation is defined as `kind:target,…`, where the kind decides which parameters may follow the
target. `Relation.parse` reads a definition and `Relation.definition` writes it. A missing target
is no fault of the definition; validation reports it.
-/

namespace Scaffold
set_option autoImplicit false

inductive RelationKind where
  | belongsTo
  | hasOne
  | hasMany
  | belongsToMany
  | morphTo
  | morphMany
  | morphedByMany
  deriving DecidableEq, Repr

namespace RelationKind

def all : List RelationKind :=
  [belongsTo, hasOne, hasMany, belongsToMany, morphTo, morphMany, morphedByMany]

def name : RelationKind → String
  | belongsTo => "belongsTo"
  | hasOne => "hasOne"
  | hasMany => "hasMany"
  | belongsToMany => "belongsToMany"
  | morphTo => "morphTo"
  | morphMany => "morphMany"
  | morphedByMany => "morphedByMany"

def ofName? (text : String) : Option RelationKind := all.find? fun k => k.name == text

end RelationKind

/-- A relation with the parameters of its kind, each of which may be left out. -/
inductive Relation where
  | belongsTo (target foreignKey : Option String)
  | hasOne (target foreignKey : Option String)
  | hasMany (target foreignKey : Option String)
  | belongsToMany (target pivotTable foreignPivotKey relatedPivotKey : Option String)
  | morphTo
  | morphMany (target morphName : Option String)
  | morphedByMany (target morphName : Option String)
  deriving DecidableEq, Repr

namespace Relation

inductive Fault where
  | empty
  | unknownKind (kind : String)
  deriving DecidableEq, Repr

def Fault.reason : Fault → String
  | empty => "is empty"
  | unknownKind kind => "unknown relation kind '" ++ kind ++ "'"

/-- A definition that cannot be read. -/
structure Malformed where
  definition : String
  fault : Fault
  deriving DecidableEq, Repr

def Malformed.message (e : Malformed) : String :=
  "Malformed relation definition '" ++ e.definition ++ "': " ++ e.fault.reason

def kind : Relation → RelationKind
  | belongsTo .. => .belongsTo
  | hasOne .. => .hasOne
  | hasMany .. => .hasMany
  | belongsToMany .. => .belongsToMany
  | morphTo => .morphTo
  | morphMany .. => .morphMany
  | morphedByMany .. => .morphedByMany

/-- The parameters in the order in which a definition gives them. -/
def params : Relation → List (Option String)
  | belongsTo target key | hasOne target key | hasMany target key => [target, key]
  | belongsToMany target pivot foreignKey relatedKey => [target, pivot, foreignKey, relatedKey]
  | morphTo => []
  | morphMany target name | morphedByMany target name => [target, name]

/-- The relation of a kind whose parameters are given by their places. -/
def ofParams (param : Nat → Option String) : RelationKind → Relation
  | .belongsTo => belongsTo (param 0) (param 1)
  | .hasOne => hasOne (param 0) (param 1)
  | .hasMany => hasMany (param 0) (param 1)
  | .belongsToMany => belongsToMany (param 0) (param 1) (param 2) (param 3)
  | .morphTo => morphTo
  | .morphMany => morphMany (param 0) (param 1)
  | .morphedByMany => morphedByMany (param 0) (param 1)

/-- The relation that a definition describes; an empty parameter counts as left out. -/
def parse (definition : String) : Except Malformed Relation :=
  if Text.isBlankText definition then .error ⟨definition, .empty⟩
  else
    let (kindText, paramText) := (Text.cut? ':' definition).getD (definition, "")
    let kindText := Text.strip kindText
    match RelationKind.ofName? kindText with
    | none => .error ⟨definition, .unknownKind kindText⟩
    | some kind =>
      let given := (Text.split ',' paramText).map Text.strip
      .ok (ofParams (fun place => given[place]?.filter (!·.isEmpty)) kind)

/-- The relation of a value in the schema, which has to be a text. -/
def ofJson : Json → Except Malformed Relation
  | .string definition => parse definition
  | value => .error ⟨value.plain, .empty⟩

/-- The definition of a relation, without the empty parameters at its end. -/
def definition (relation : Relation) : String :=
  let texts := relation.params.map (·.getD "")
  match (texts.reverse.dropWhile (·.isEmpty)).reverse with
  | [] => relation.kind.name
  | given => relation.kind.name ++ ":" ++ Text.join "," given

def target? : Relation → Option String
  | belongsTo target _ | hasOne target _ | hasMany target _ | belongsToMany target .. => target
  | morphTo => none
  | morphMany target _ | morphedByMany target _ => target

def foreignKey? : Relation → Option String
  | belongsTo _ key | hasOne _ key | hasMany _ key => key
  | _ => none

def pivotTable? : Relation → Option String
  | belongsToMany _ pivot _ _ => pivot
  | _ => none

def foreignPivotKey? : Relation → Option String
  | belongsToMany _ _ key _ => key
  | _ => none

def relatedPivotKey? : Relation → Option String
  | belongsToMany _ _ _ key => key
  | _ => none

def morphName? : Relation → Option String
  | morphMany _ name | morphedByMany _ name => name
  | _ => none

/-- Whether a target is missing where the kind needs one. -/
def lacksTarget (relation : Relation) : Bool :=
  relation.target?.isNone && relation.kind != .morphTo

def isBelongsTo (relation : Relation) : Bool := relation.kind == .belongsTo

end Relation
end Scaffold
