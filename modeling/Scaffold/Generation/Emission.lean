import Scaffold.Artifact
import Scaffold.Generation.Options
import Scaffold.Render.AuthController
import Scaffold.Render.Factory
import Scaffold.Render.Migration
import Scaffold.Render.Observer
import Scaffold.Render.Policy
import Scaffold.Render.Provider
import Scaffold.Render.Routes
import Scaffold.Render.Seeder

/-!
# Emissions

The files that a run makes of a schema, in order, each with its content: before anything is looked
up on a disk, all of this is known.
-/

namespace Scaffold
set_option autoImplicit false

open Text (NumeralError)

/-- A file to be made: whole, as a section of a file that people edit too, or as a migration, which
takes the place of those whose names end alike. -/
inductive Emission where
  | whole (kind : ArtifactKind) (path : String) (text : Except NumeralError String)
      (metadata : Json.Members)
  | merged (kind : ArtifactKind) (path : String) (markers : Markers) (body : List String)
      (fresh : String) (anchor : Option String) (indent : String)
  | migration (suffix : String) (text : Except NumeralError String) (metadata : Json.Members)

namespace Emission

/-- What the manifest notes about a file of an entity. -/
def entityMetadata (e : Entity) : Json.Members :=
  [("entity", .string e.name), ("table", .string e.table)]

/-- The migration of an entity: that of the users table adds to it, any other makes a table. -/
def entityMigration (e : Entity) : Except NumeralError String :=
  if Render.isUsers e then Render.usersMigration e else Render.entityMigration e

/-- The files of one entity. -/
def ofEntity (s : Schema) (options : Options) (e : Entity) : List Emission :=
  let note := entityMetadata e
  let when_ (component : Component) (present : Bool) (emission : Emission) : List Emission :=
    if options.includes component && present then [emission] else []
  when_ .models true (.whole .models (Artifact.modelPath e) (.ok (Render.modelPage s e)) note) ++
  (match Artifact.migrationSuffix? e with
    | some suffix => when_ .migrations true (.migration suffix (entityMigration e) note)
    | none => []) ++
  when_ .controllers e.hasRoutes
    (.whole .controllers (Artifact.controllerPath e) (.ok (Render.controllerPage s e)) note) ++
  when_ .factories e.hasFactory
    (.whole .factories (Artifact.factoryPath e) (Render.factoryPage s e) note) ++
  when_ .seeders e.seeder
    (.whole .seeders (Artifact.seederPath e) (.ok (Render.seederPage s e)) note) ++
  when_ .policies e.hasPolicies
    (.whole .policies (Artifact.policyPath e) (.ok (Render.policyPage e)) note) ++
  when_ .observers e.hasObservers
    (.whole .observers (Artifact.observerPath e) (.ok (Render.observerPage e)) note)

/-- The migration of a pivot table. -/
def ofPivot (p : Pivot) : Emission :=
  .migration (Artifact.creationSuffix p.name) (Render.pivotMigration p)
    [("pivot", .string p.name), ("table", .string p.name)]

/-- The seeder of the whole database: merged into the one that is there, or made anew. -/
def databaseSeeder (s : Schema) (mode : Mode) (order : List String) : Emission :=
  let fresh := Render.databaseSeederPage s order
  match mode with
  | .merge =>
    .merged .seeders Artifact.databaseSeederPath .seeders (Render.seederCalls s order) fresh
      (some Section.seederAnchor) Render.seederIndent
  | _ => .whole .seeders Artifact.databaseSeederPath (.ok fresh) []

/-- The files that belong to no entity. -/
def common (s : Schema) (options : Options) (order : List String) : List Emission :=
  let routes := Render.routesSection s
  (if options.includes .routes then
    [.merged .routes Artifact.routesPath .routes routes (Render.routesPage routes) none ""]
      else []) ++
  (if options.includes .seeders then [databaseSeeder s options.mode order] else []) ++
  (if options.includes .providers then
    [.whole .providers Artifact.authProviderPath (.ok (Render.authProviderPage s)) [],
      .whole .providers Artifact.observerProviderPath (.ok (Render.observerProviderPage s)) []]
        else []) ++
  (if options.includes .auth && s.auth.enabled then
    [.whole .controllers Artifact.authControllerPath (.ok (Render.authControllerPage s))
      [("provider", .string s.auth.provider)]] else [])

/-- All files that a run makes: those of the entities in the given order, the migrations of pivot
tables, and what they have in common. -/
def ofSchema (s : Schema) (options : Options) (order : List String) : List Emission :=
  ((order.filterMap s.entities.get?).flatMap (ofEntity s options)) ++
  (if options.includes .migrations then s.pivots.values.map ofPivot else []) ++
    common s options order

end Emission
end Scaffold
