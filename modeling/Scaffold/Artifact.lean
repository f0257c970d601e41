import Scaffold.Digest.Sha256
import Scaffold.Json.Printer
import Scaffold.Moment
import Scaffold.Pattern
import Scaffold.Schema
import Scaffold.Sorting

/-!
# Artifacts

The files that a schema requires, by path. A migration has the moment of its run in its name, so
that it is required by a pattern.
-/

namespace Scaffold
set_option autoImplicit false

/-- The kinds of files that are generated, in the order of the manifest. -/
inductive ArtifactKind where
  | models
  | controllers
  | migrations
  | factories
  | seeders
  | policies
  | observers
  | routes
  | providers
  | config
  deriving DecidableEq, Repr

namespace ArtifactKind

def all : List ArtifactKind :=
  [models, controllers, migrations, factories, seeders, policies, observers, routes,
    providers, config]

def name : ArtifactKind → String
  | models => "models"
  | controllers => "controllers"
  | migrations => "migrations"
  | factories => "factories"
  | seeders => "seeders"
  | policies => "policies"
  | observers => "observers"
  | routes => "routes"
  | providers => "providers"
  | config => "config"

end ArtifactKind

namespace Artifact

/-- Tables that the framework makes itself. -/
def reservedTables : List String :=
  ["users", "password_resets", "failed_jobs", "personal_access_tokens"]

def routesPath : String := "routes/api.php"

def databaseSeederPath : String := "database/seeders/DatabaseSeeder.php"

def authProviderPath : String := "app/Providers/AuthServiceProvider.php"

def observerProviderPath : String := "app/Providers/ObserverServiceProvider.php"

def authControllerPath : String := "app/Http/Controllers/AuthController.php"

/-- The directory of migrations. -/
def migrationsDirectory : String := "database/migrations"

/-- Files that every schema requires. -/
def alwaysRequired : List String :=
  [routesPath, databaseSeederPath, authProviderPath, observerProviderPath]

def modelPath (e : Entity) : String := "app/Models/" ++ e.className ++ ".php"

def controllerPath (e : Entity) : String :=
  "app/Http/Controllers/" ++ e.className ++ "Controller.php"

def factoryPath (e : Entity) : String := "database/factories/" ++ e.className ++ "Factory.php"

def seederPath (e : Entity) : String := "database/seeders/" ++ e.className ++ "Seeder.php"

def policyPath (e : Entity) : String := "app/Policies/" ++ e.className ++ "Policy.php"

def observerPath (e : Entity) : String := "app/Observers/" ++ e.className ++ "Observer.php"

/-- How the name of a table's migration ends. -/
def creationSuffix (table : String) : String := "_create_" ++ table ++ "_table.php"

/-- How the name of the migration of the users table ends. -/
def usersSuffix : String := "_modify_users_table.php"

/-- The pattern of the migrations whose names end so. -/
def migrationPattern (suffix : String) : String := migrationsDirectory ++ "/*" ++ suffix

/-- The path of the migration whose name ends so, made at a moment. -/
def migrationPath (moment : Moment) (suffix : String) : String :=
  migrationsDirectory ++ "/" ++ moment.underscored ++ suffix

/-- How the name of an entity's migration ends; a table of the framework other than the users has
no migration. -/
def migrationSuffix? (e : Entity) : Option String :=
  if e.table == "users" then some usersSuffix
  else if reservedTables.contains e.table then none
  else some (creationSuffix e.table)

/-- The pattern of an entity's migration. -/
def migrationPattern? (e : Entity) : Option String := (migrationSuffix? e).map migrationPattern

/-- What one entity requires. -/
def ofEntity (e : Entity) : List String :=
  [modelPath e] ++ (if e.hasRoutes then [controllerPath e] else []) ++
    (migrationPattern? e).toList ++
  (if e.hasFactory then [factoryPath e] else []) ++ (if e.seeder then [seederPath e] else []) ++
  (if e.hasPolicies then [policyPath e] else []) ++ if e.hasObservers then [observerPath e] else []

end Artifact

namespace Schema

/-- Every path and pattern that a schema requires, in order, once each. -/
def requiredArtifacts (s : Schema) : List String :=
  distinctSorted (Artifact.alwaysRequired ++ s.entities.values.flatMap Artifact.ofEntity ++
    (s.pivots.keys.map fun name => Artifact.migrationPattern (Artifact.creationSuffix name)) ++
    if s.auth.enabled then [Artifact.authControllerPath] else [])

/-- The digest of the document, the same for documents that differ in the order of members only. -/
def hash (s : Schema) : String := Digest.ofText (Json.object s.document).canonical

end Schema
end Scaffold
