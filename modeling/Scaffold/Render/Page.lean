import Scaffold.Php
import Scaffold.Sorting

/-!
# PHP pages

What all generated files share: the opening lines with the namespace and the imports, which stand
in order and once each, and the marks of a block.
-/

namespace Scaffold.Render
set_option autoImplicit false

/-- The lines that import classes. -/
def uses (imports : List String) : List String :=
  (distinctSorted imports).map fun name => s!"use {name};"

/-- The opening lines of a file in a namespace. -/
def opening (space : String) (imports : List String) : List String :=
  ["<?php", "", s!"namespace {space};", ""] ++ uses imports

/-- Lines between braces under a heading, at the same level as the heading. -/
def block (heading : List String) (body : List String) : List String :=
  heading ++ ["\x7b"] ++ body ++ ["\x7d"]

/-- A method of a class: its heading and its body, which comes already indented. -/
def method (heading : String) (body : List String) : List String :=
  ["    " ++ heading, "    \x7b"] ++ body ++ ["    \x7d"]

/-- A comment of one line over a member of a class. -/
def remark (text : String) : List String := ["    /**", "     * " ++ text, "     */"]

/-- The lines without the empty ones at their end. -/
def withoutTrailingBlanks (lines : List String) : List String :=
  (lines.reverse.dropWhile (·.isEmpty)).reverse

/-- The text of a file: its lines, each closed by a line feed. -/
def page (lines : List String) : String := Text.unlines (lines ++ [""])

/-- Columns that the framework keeps up itself. -/
def autoColumns : List String := ["id", "created_at", "updated_at", "deleted_at"]

end Scaffold.Render
