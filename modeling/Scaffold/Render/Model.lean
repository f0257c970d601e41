import Scaffold.Render.Page
import Scaffold.Schema

/-!
# Models

The class of an entity: the columns that may be filled, those that are hidden, the casts, a method
for each relation and one for each supported scope.
-/

namespace Scaffold.Render
set_option autoImplicit false

/-- The type to which a column of this type is cast. -/
def cast? : Option FieldType → Option String
  | some .boolean => some "boolean"
  | some .json | some .files => some "array"
  | some .date => some "date"
  | some .datetime | some .timestamp => some "datetime"
  | some .decimal | some .float => some "float"
  | some .integer => some "integer"
  | _ => none

/-- The class that a relation's method returns. -/
def relationClass : RelationKind → String
  | .belongsTo => "BelongsTo"
  | .hasOne => "HasOne"
  | .hasMany => "HasMany"
  | .belongsToMany => "BelongsToMany"
  | .morphTo => "MorphTo"
  | .morphMany => "MorphMany"
  | .morphedByMany => "MorphToMany"

/-- The class of the model that a relation leads to. -/
def relatedClass? (s : Schema) (relation : Relation) : Option String :=
  relation.target?.map fun target =>
    ((s.entities.get? target).map (·.className)).getD (Naming.studly target)

/-- The texts that are given, up to the first that is not. -/
def givenFirst : List (Option String) → List String
  | some text :: rest => text :: givenFirst rest
  | _ => []

/-- The arguments after the related class by which a relation is set up. -/
def relationArguments (name : String) : Relation → List String
  | .belongsTo _ key | .hasOne _ key | .hasMany _ key => givenFirst [key]
  | .belongsToMany _ pivot foreignKey relatedKey => givenFirst [pivot, foreignKey, relatedKey]
  | .morphTo => []
  | .morphMany _ morph => [(morph.filter (!·.isEmpty)).getD (Naming.snake name)]
  | .morphedByMany _ morph => [(morph.filter (!·.isEmpty)).getD "taggable"]

/-- The method of a relation; one without the target it needs has none. -/
def relationMethod (s : Schema) (name : String) (relation : Relation) : List String :=
  let kind := relation.kind.name
  let returned := relationClass relation.kind
  let write (arguments : List String) : List String :=
    let list := Text.join ", " arguments
    method s!"public function {name}(): {returned}"
      [s!"        return $this->{kind}({list});"] ++ [""]
  match relation, relatedClass? s relation with
  | .morphTo, _ => write []
  | _, none => []
  | _, some related =>
    write (s!"{related}::class" :: (relationArguments name relation).map Php.literal)

/-- The call by which a scope narrows a query. -/
def scopeCall : ScopeForm → String
  | .equals field value => s!"where('{field}', " ++ Php.scalar value ++ ")"
  | .order field direction => s!"orderBy('{field}', '" ++ direction.name ++ "')"
  | .isNull field => s!"whereNull('{field}')"

/-- The method of a scope. -/
def scopeMethod (name : String) (form : ScopeForm) : List String :=
  method ("public function scope" ++ Naming.studly name ++ "($query)")
    ["        return $query->" ++ scopeCall form ++ ";"] ++ [""]

/-- Lines between the marks of a part of the class. -/
def marked (part : String) (body : List String) : List String :=
  [s!"    // >>> AI-NATIVE {part} START"] ++ body ++ [s!"    // >>> AI-NATIVE {part} END"]

/-- A list of names as the value of a property. -/
def propertyList (property : String) (names : List String) : List String :=
  [s!"    protected ${property} = ["] ++ names.map (fun name => s!"        '{name}',") ++ ["    ];"]

/-- Whether a column holds a secret. -/
def isPassword (name : String) : Bool := Text.has "password" name

/-- The cast of a field. -/
def castLine? (name : String) (field : Field) : Option String :=
  if name == "created_at" || name == "updated_at" then none
  else (if isPassword name then some "hashed" else cast? field.type?).map fun cast =>
    s!"        '{name}' => '{cast}',"

/-- Whether an entity is the one that logs in. -/
def isUsers (e : Entity) : Bool := e.table == "users"

/-- The traits of the class. -/
def modelTraits (s : Schema) (e : Entity) : List String :=
  (if isUsers e && s.auth.enabled && s.auth.usesTokens then ["HasApiTokens"] else []) ++
  ["HasFactory"] ++
  (if isUsers e then ["Notifiable"] else []) ++
  (if e.hasSoftDeletes then ["SoftDeletes"] else []) ++
  (if e.cache.isEmpty then [] else ["Cacheable"])

/-- The classes that the class uses. -/
def modelImports (s : Schema) (e : Entity) : List String :=
  ["Illuminate\\Database\\Eloquent\\Factories\\HasFactory"] ++
  (if isUsers e then
    ["Illuminate\\Foundation\\Auth\\User as Authenticatable",
      "Illuminate\\Notifications\\Notifiable"] ++
    (if s.auth.enabled && s.auth.usesTokens then ["Laravel\\Sanctum\\HasApiTokens"] else [])
    else ["Illuminate\\Database\\Eloquent\\Model"]) ++
  (if e.hasSoftDeletes then ["Illuminate\\Database\\Eloquent\\SoftDeletes"] else []) ++
  (if e.cache.isEmpty then [] else ["App\\Traits\\Cacheable"]) ++
  e.relations.values.map fun r => "Illuminate\\Database\\Eloquent\\Relations\\" ++
    relationClass r.kind

/-- The columns that are left out when a row is shown. -/
def hiddenColumns (e : Entity) : List String :=
  let secret := e.fields.keys.filter isPassword
  if isUsers e && !secret.contains "remember_token" then secret ++ ["remember_token"] else secret

/-- The class of an entity. -/
def modelPage (s : Schema) (e : Entity) : String :=
  let cls := e.className
  let parent := if isUsers e then "Authenticatable" else "Model"
  let traits := Text.join ", " (modelTraits s e)
  let table := e.table
  let hidden := hiddenColumns e
  page (opening "App\\Models" (modelImports s e) ++
    ["", s!"class {cls} extends {parent}", "\x7b", s!"    use {traits};", "",
      s!"    protected $table = '{table}';", ""] ++
    marked "FILLABLE" (propertyList "fillable" (e.fields.keys.filter fun n =>
      !autoColumns.contains n)) ++
    (if hidden.isEmpty then [] else "" :: propertyList "hidden" hidden) ++ [""] ++
    marked "CASTS" (["    protected $casts = ["] ++
      (e.fields.entries.filterMap fun (name, field) => castLine? name field) ++
        ["    ];"]) ++ [""] ++
    marked "RELATIONS" (e.relations.entries.flatMap fun (name, relation) =>
      relationMethod s name relation) ++
    [""] ++
    marked "SCOPES" (e.scopes.values.flatMap fun scope =>
      (scope.form.map (scopeMethod scope.name)).getD []) ++ ["\x7d"])

end Scaffold.Render
