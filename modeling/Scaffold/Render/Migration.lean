import Scaffold.Render.Column
import Scaffold.Render.Page
import Scaffold.Schema

/-!
# Migrations

A migration says how to change the database and how to undo the change. An entity and a pivot get
a table; the users table, which the framework creates, gets the columns it lacks.
-/

namespace Scaffold.Render
set_option autoImplicit false

open Text (NumeralError)

/-- A migration file from the bodies of its two directions. -/
def migrationPage (up down : List String) : String :=
  page (["<?php", "", "use Illuminate\\Database\\Migrations\\Migration;",
      "use Illuminate\\Database\\Schema\\Blueprint;",
      "use Illuminate\\Support\\Facades\\Schema;", "",
      "return new class extends Migration", "\x7b"] ++
    remark "Run the migrations." ++ method "public function up(): void" (Php.indent 2 up) ++ [""] ++
    remark "Reverse the migrations." ++ method "public function down(): void" (Php.indent 2 down) ++
    ["\x7d;"])

/-- Statements on a table, inside the call that opens it. -/
def onTable (call table : String) (statements : List String) : List String :=
  [s!"Schema::{call}('{table}', function (Blueprint $table) \x7b"] ++
    Php.indent 1 statements ++ ["\x7d);"]

/-- The statements for the columns of several fields. -/
def columnsLines (fields : List (String × Field)) : Except NumeralError (List String) :=
  (fields.mapM fun (name, field) => columnLines name field).map List.flatten

/-- The migration that creates a table. -/
def createPage (table : String) (fields : OrderedMap Field) (closing : List String) :
    Except NumeralError String :=
  (columnsLines (fields.entries.filter fun f => !autoColumns.contains f.1)).map fun columns =>
    migrationPage (onTable "create" table ("$table->id();" :: columns ++ closing))
      [s!"Schema::dropIfExists('{table}');"]

/-- The migration of an entity's table. -/
def entityMigration (e : Entity) : Except NumeralError String :=
  createPage e.table e.fields ("$table->timestamps();" ::
    if e.hasSoftDeletes then ["$table->softDeletes();"] else [])

/-- The migration of a pivot table. -/
def pivotMigration (p : Pivot) : Except NumeralError String :=
  let unique := if p.unique.isEmpty then [] else ["$table->unique(" ++ Php.array p.unique ++ ");"]
  createPage p.name p.fields (unique ++ ["$table->timestamps();"])

/-- Columns of the users table that the framework's own migration creates. -/
def userColumns : List String :=
  ["id", "name", "email", "email_verified_at", "password", "remember_token",
    "created_at", "updated_at"]

/-- The fields of a users entity that its table lacks. -/
def addedFields (e : Entity) : List (String × Field) :=
  e.fields.entries.filter fun f => !userColumns.contains f.1 && f.1 != "deleted_at"

def isForeign (field : Field) : Bool := field.type? == some .foreign

/-- What drops the foreign key of an added column, with or without its column. -/
def dropKeyLine? (name : String) (field : Field) : Option String :=
  if !isForeign field then none
  else if isKeyName name then some s!"$table->dropConstrainedForeignId('{name}');"
  else some s!"$table->dropForeign(['{name}']);"

/-- The added columns that are dropped by name. -/
def plainColumns (added : List (String × Field)) : List String :=
  (added.filter fun f => !(isForeign f.2 && isKeyName f.1)).map (·.1)

/-- The statements that take the added columns away. -/
def dropLines (e : Entity) : List String :=
  let added := addedFields e
  let plain := plainColumns added
  (added.filterMap fun (name, field) => dropKeyLine? name field) ++
    (if e.hasSoftDeletes then ["$table->dropSoftDeletes();"] else []) ++
    if plain.isEmpty then [] else ["$table->dropColumn(" ++ Php.array plain ++ ");"]

/-- The migration that adds the columns of a users entity. -/
def usersMigration (e : Entity) : Except NumeralError String :=
  (columnsLines (addedFields e)).map fun columns =>
    let add := columns ++ if e.hasSoftDeletes then ["$table->softDeletes();"] else []
    if add.isEmpty then migrationPage (onTable "table" "users" ["//"])
      (onTable "table" "users" (dropLines e ++ ["//"]))
    else migrationPage (onTable "table" "users" add) (onTable "table" "users" (dropLines e))

end Scaffold.Render
