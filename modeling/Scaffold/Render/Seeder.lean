import Scaffold.Render.Model
import Scaffold.Section

/-!
# Seeders

The class that fills an entity's table, and the one that calls the seeders of all entities in a
given order, from a marked section.
-/

namespace Scaffold.Render
set_option autoImplicit false

/-- An entity that the rows refer to: its class, the variable that holds its keys and the column
that takes one. -/
structure Parent where
  cls : String
  holder : String
  key : String

/-- The entities that the rows of an entity refer to, other than itself. -/
def parentsOf (s : Schema) (e : Entity) : List Parent :=
  e.relations.entries.filterMap fun (name, relation) =>
    match relation.isBelongsTo, relatedClass? s relation with
    | true, some related =>
      if related == e.className then none
      else
        let key := (relation.foreignKey?.filter (!·.isEmpty)).getD (Naming.snake name ++ "_id")
        some ⟨related, "$" ++ Naming.camel name ++ "Ids", key⟩
    | _, _ => none

/-- The body that makes `count` rows that refer to existing parents, or to new ones. -/
def seedLines (cls : String) (count : Nat) (parents : List Parent) : List String :=
  if parents.isEmpty then [s!"{cls}::factory()->count({count})->create();"]
  else
    (parents.map fun p => p.holder ++ " = " ++ p.cls ++ "::query()->pluck('id');") ++
    ["", s!"{cls}::factory()", s!"    ->count({count})", "    ->state(fn () => ["] ++
    (parents.map fun p => "        '" ++ p.key ++ "' => " ++ p.holder ++
      "->isNotEmpty() ? " ++ p.holder ++ "->random() : " ++ p.cls ++ "::factory(),") ++
    ["    ])", "    ->create();"]

/-- The seeder of an entity. -/
def seederPage (s : Schema) (e : Entity) : String :=
  let cls := e.className
  let parents := if e.hasFactory then parentsOf s e else []
  let body :=
    match e.factory with
    | none => [s!"// {cls} has no factory; add seed rows here."]
    | some factory => seedLines cls factory.count parents
  let imports := [s!"App\\Models\\{cls}", "Illuminate\\Database\\Seeder"] ++
    parents.map fun p => "App\\Models\\" ++ p.cls
  page (opening "Database\\Seeders" imports ++ ["", s!"class {cls}Seeder extends Seeder", "\x7b"] ++
    remark "Run the database seeds." ++ method "public function run(): void"
      (Php.indent 2 body) ++ ["\x7d"])

/-- The calls of the seeders of the named entities, in that order. -/
def seederCalls (s : Schema) (order : List String) : List String :=
  order.filterMap fun name =>
    match s.entities.get? name with
    | some e => if e.seeder then some (e.className ++ "Seeder::class,") else none
    | none => none

/-- The indentation of the calls. -/
def seederIndent : String := Text.repeated ' ' 12

/-- A seeder of the whole database that holds nothing but the section. -/
def databaseSeederPage (s : Schema) (order : List String) : String :=
  page (["<?php", "", "namespace Database\\Seeders;", "", "use Illuminate\\Database\\Seeder;", "",
      "class DatabaseSeeder extends Seeder", "\x7b"] ++
    remark "Seed the application's database." ++
    method "public function run(): void"
      ["        $this->call([", Section.wrap .seeders (seederCalls s order) seederIndent,
        "        ]);"] ++
    ["\x7d"])

end Scaffold.Render
