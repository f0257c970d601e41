import Scaffold.Proofs.Outcomes
import Scaffold.Proofs.Render.References
import Scaffold.Proofs.Section.Inserting
import Scaffold.Proofs.Text.Trimming

/-!
# Files made anew and files merged

The files with a marked section hold nothing else when they are made anew, and the section stands in
them just as a merge puts it there. So it makes no difference whether such a file is made anew or
the lines of its section are merged into one that was made before, for another schema:
`Render.merge_fresh`.

What the seeder of the whole database calls is read off the list in its text
(`Render.seedersCalled`): the seeders of the entities, in the order in which these are given
(`Render.seedersCalled_databaseSeederPage`).
-/

namespace Scaffold
set_option autoImplicit false

open Chars (EndsLine AreBlanks)

namespace Section

/-- Where a section stands between lines in front of which no marker opens one, a merge puts the new
section in its place. -/
theorem mergeAfter_unlines {markers : Markers} {head tail first : List String} {indent : String}
    (apart : markers.AreApart)
    (closed : Chars.find? markers.opening.toList (head.flatMap fun line =>
      line.toList ++ ['\n']) = none)
    (filled : tail ≠ []) (blank : AreBlanks indent.toList) (free : markers.AreFree first)
    (second : List String) (place : Option Nat) (other : String) :
    mergeAfter markers second place other
      (Text.unlines (head ++ wrap markers first indent :: tail)) =
      (.replaced, Text.unlines (head ++ wrap markers second indent :: tail)) := by
  have whole : EndsLine (head.flatMap fun line => line.toList ++ ['\n']) := by
    rcases List.eq_nil_or_concat head with rfl | ⟨front, last, rfl⟩
    · exact .inl rfl
    · exact .inr ⟨(front.flatMap fun line => line.toList ++ ['\n']) ++ last.toList, by simp⟩
  have unpaired : markers.AreUnpaired (head.flatMap fun line => line.toList ++ ['\n']) := by
    intro early found
    rw [closed] at found
    cases found
  have chars := fun body => Text.toList_unlines_around head (wrap markers body indent) filled
  have found :=
    findIn?_wrap apart whole unpaired blank free
      (.inr (List.head?_cons (l := (Text.unlines tail).toList)))
  rw [← chars first] at found
  rw [mergeAfter_of_replace? (replace?_wrap apart blank (chars first) found second)]
  refine congrArg _ (String.toList_inj.1 ?_)
  rw [toList_append_section, chars second]

end Section

namespace Render

/-- The lines of the seeder of the whole database in front of its section. -/
def seederHead : List String :=
  ["<?php", "", "namespace Database\\Seeders;", "", "use Illuminate\\Database\\Seeder;", "",
      "class DatabaseSeeder extends Seeder", "\x7b"] ++
    remark "Seed the application's database." ++ ["    " ++ "public function run(): void",
      "    \x7b", "        $this->call(["]

theorem databaseSeederPage_eq (s : Schema) (order : List String) : databaseSeederPage s order =
    Text.unlines (seederHead ++ Section.wrap .seeders (seederCalls s order) seederIndent ::
      ["        ]);", "    \x7d", "\x7d", ""]) := rfl

/-! ## The list of a seeder -/

/-- A line without the spaces in front. -/
def unindented (line : String) : String := String.ofList (line.toList.dropWhile (· = ' '))

/-- What stands behind a class that is named for its own sake. -/
def classEnd : String := "::class,"

/-- The class that an item of a list of classes names. -/
def classOf? (item : String) : Option String :=
  (Chars.dropHead? classEnd.toList.reverse item.toList.reverse).map fun name =>
    String.ofList name.reverse

/-- The line that closes the list of a seeder. -/
def listEnd : String := "]);"

/-- The classes that a seeder calls: those of the list in its text, line by line. -/
def seedersCalled (text : String) : List String :=
  ((((Text.split '\n' text).map unindented).dropWhile (· ≠ Section.seederAnchor)).takeWhile
    (· ≠ listEnd)).filterMap classOf?

/-- The seeders of the named entities that have one. -/
def seederClasses (s : Schema) (order : List String) : List String :=
  ((order.filterMap s.entities.get?).filter (·.seeder)).map (·.className ++ "Seeder")

theorem seederClasses_append (s : Schema) (front back : List String) :
    seederClasses s (front ++ back) = seederClasses s front ++ seederClasses s back := by
  simp [seederClasses]

theorem seederClasses_cons {s : Schema} {e : Entity} (known : s.entities.get? e.name = some e)
    (seeds : e.seeder = true) (rest : List String) :
    seederClasses s (e.name :: rest) = (e.className ++ "Seeder") :: seederClasses s rest := by
  rw [seederClasses, List.filterMap_cons_some known, List.filter_cons_of_pos seeds]
  rfl

theorem seederCalls_eq (s : Schema) (order : List String) :
    seederCalls s order = (seederClasses s order).map (· ++ classEnd) := by
  induction order with
  | nil => rfl
  | cons name order ih =>
    unfold seederCalls seederClasses at *
    rw [List.filterMap_cons, List.filterMap_cons, ih]
    cases s.entities.get? name with
    | none => rfl
    | some e => cases seeds : e.seeder <;> simp [seeds, classEnd, String.append_assoc]

theorem clear_of_mem_seederClasses {s : Schema} {order : List String} {name : String}
    (mem : name ∈ seederClasses s order) : ' ' ∉ name.toList ∧ '\n' ∉ name.toList := by
  obtain ⟨e, -, rfl⟩ := List.mem_map.1 mem
  have last : ' ' ∉ "Seeder".toList ∧ '\n' ∉ "Seeder".toList := by decide
  simp only [String.toList_append, List.mem_append, not_or]
  exact ⟨⟨Naming.space_not_mem_studly e.name, last.1⟩,
    ⟨Naming.newline_not_mem_studly e.name, last.2⟩⟩

theorem clear_of_mem_seederCalls {s : Schema} {order : List String} {call : String}
    (mem : call ∈ seederCalls s order) : ' ' ∉ call.toList ∧ '\n' ∉ call.toList := by
  rw [seederCalls_eq] at mem
  obtain ⟨name, isClass, rfl⟩ := List.mem_map.1 mem
  obtain ⟨space, newline⟩ := clear_of_mem_seederClasses isClass
  have last : ' ' ∉ classEnd.toList ∧ '\n' ∉ classEnd.toList := by decide
  simp only [String.toList_append, List.mem_append, not_or]
  exact ⟨⟨space, last.1⟩, ⟨newline, last.2⟩⟩

theorem classOf?_append (name : String) : classOf? (name ++ classEnd) = some name := by
  rw [classOf?, String.toList_append, List.reverse_append, Chars.dropHead?_eq_some.2 rfl]
  simp

/-- Indented lines without spaces of their own are what they are without the indentation. -/
theorem unindented_indent {line : String} (clear : ' ' ∉ line.toList) :
    unindented (seederIndent ++ line) = line := by
  have spaces : ∀ c ∈ seederIndent.toList, decide (c = ' ') = true := by decide
  have own : line.toList.dropWhile (· = ' ') = line.toList :=
    Chars.dropWhile_eq_self fun c mem => decide_eq_false fun same =>
      clear (same ▸ List.mem_of_mem_head? mem)
  rw [unindented, String.toList_append, List.dropWhile_append_of_pos spaces, own,
    String.ofList_toList]

/-- The lines of the section of a seeder. -/
def sectionLines (s : Schema) (order : List String) : List String :=
  (seederIndent ++ Markers.seeders.opening) :: (seederCalls s order).map (seederIndent ++ ·) ++
    [seederIndent ++ Markers.seeders.closing]

theorem wrap_seederCalls (s : Schema) (order : List String) :
    Section.wrap .seeders (seederCalls s order) seederIndent = Text.unlines
      (sectionLines s order) := by
  have filled : ∀ line ∈ seederCalls s order, (if line.isEmpty then "" else seederIndent ++ line) =
      seederIndent ++ line := by
    intro line mem
    rw [seederCalls_eq] at mem
    obtain ⟨name, -, rfl⟩ := List.mem_map.1 mem
    simp [classEnd]
  rw [Section.wrap, List.map_congr_left filled]
  rfl

/-- The lines of a seeder of the whole database. -/
theorem split_databaseSeederPage (s : Schema) (order : List String) :
    Text.split '\n' (databaseSeederPage s order) =
    seederHead ++ (sectionLines s order ++ ["        ]);", "    \x7d", "\x7d", ""]) := by
  have joined {front back : List String} (filled : front ≠ []) (more : back ≠ []) :
      Text.unlines (front ++ back) = Text.unlines front ++ "\n" ++ Text.unlines back :=
        String.intercalate_append_of_ne_nil filled more
  have one (text : String) : Text.unlines [text] = text := @String.intercalate_singleton "\n" text
  have lines : databaseSeederPage s order =
      Text.unlines (seederHead ++
        (sectionLines s order ++ ["        ]);", "    \x7d", "\x7d", ""])) := by
    rw [databaseSeederPage_eq, wrap_seederCalls, joined (by decide) (by simp),
      ← List.singleton_append, joined (by simp) (by simp), one,
      joined (by decide) (by simp), joined (by simp [sectionLines]) (by simp)]
  rw [lines]
  refine Text.split_joined rfl (by simp) fun line mem => ?_
  have edges : ∀ line ∈ seederHead ++ [seederIndent ++ Markers.seeders.opening,
      seederIndent ++ Markers.seeders.closing] ++ ["        ]);", "    \x7d", "\x7d", ""],
      '\n' ∉ line.toList := by decide +kernel
  simp only [sectionLines, List.mem_append, List.mem_cons, List.mem_map] at mem
  rcases mem with mem | ((rfl | ⟨call, isCall, rfl⟩) | rfl | absent) | mem
  · exact edges line (List.mem_append_left _ (List.mem_append_left _ mem))
  · exact edges _ (by simp)
  · rw [String.toList_append, List.mem_append, not_or]
    exact ⟨by decide, (clear_of_mem_seederCalls isCall).2⟩
  · exact edges _ (by simp)
  · cases absent
  · exact edges line (List.mem_append_right _ (by simpa using mem))

/-- The seeder of the whole database calls the seeders of the entities in the order in which these
are given. -/
theorem seedersCalled_databaseSeederPage (s : Schema) (order : List String) :
    seedersCalled (databaseSeederPage s order) = seederClasses s order := by
  have head : (seederHead.map unindented).dropWhile (· ≠ Section.seederAnchor) =
    [Section.seederAnchor] := by decide +kernel
  have edges : unindented (seederIndent ++ Markers.seeders.opening) = Markers.seeders.opening ∧
      unindented (seederIndent ++ Markers.seeders.closing) = Markers.seeders.closing := by
    decide +kernel
  have tail : (["        ]);", "    \x7d", "\x7d", ""].map unindented).takeWhile (· ≠ listEnd) =
    [] := by decide +kernel
  have calls :
      ((seederCalls s order).map (seederIndent ++ ·)).map unindented = seederCalls s order := by
    rw [List.map_map]
    exact List.map_congr_left (fun call mem => unindented_indent (clear_of_mem_seederCalls mem).1)
      |>.trans (List.map_id _)
  have inner : (sectionLines s order).map unindented =
      Markers.seeders.opening :: seederCalls s order ++ [Markers.seeders.closing] := by
    rw [sectionLines, List.map_append, List.map_cons, calls, edges.1, List.map_singleton, edges.2]
  -- no line of the section closes the list
  have open_ : ∀ line ∈ Section.seederAnchor :: (Markers.seeders.opening :: seederCalls s order ++
      [Markers.seeders.closing]), decide (line ≠ listEnd) = true := by
    intro line mem
    simp only [List.mem_cons, List.mem_append, List.not_mem_nil, or_false] at mem
    rcases mem with rfl | (rfl | isCall) | rfl
    · decide
    · decide
    · rw [seederCalls_eq] at isCall
      obtain ⟨name, -, rfl⟩ := List.mem_map.1 isCall
      refine decide_eq_true fun same => ?_
      have absent : classOf? listEnd = none := by decide
      rw [← same, classOf?_append] at absent
      cases absent
    · decide
  have items : (seederCalls s order).filterMap classOf? = seederClasses s order := by
    rw [seederCalls_eq, List.filterMap_map]
    exact (List.filterMap_congr fun name _ => classOf?_append name).trans List.filterMap_some
  have others : classOf? Section.seederAnchor = none ∧ classOf? Markers.seeders.opening = none ∧
      classOf? Markers.seeders.closing = none := by decide
  rw [seedersCalled, split_databaseSeederPage, List.map_append, List.map_append,
    List.dropWhile_append, head, inner, List.isEmpty_cons, if_neg Bool.false_ne_true,
    ← List.append_assoc, List.singleton_append, List.takeWhile_append_of_pos open_,
    tail, List.append_nil, List.filterMap_cons_none others.1, List.cons_append,
    List.filterMap_cons_none others.2.1, List.filterMap_append, items,
    List.filterMap_cons_none others.2.2, List.filterMap_nil, List.append_nil]

/-- The calls of seeders hold no space, and so no marker. -/
theorem areFree_seederCalls (s : Schema) (order : List String) :
    Markers.seeders.AreFree (seederCalls s order) := by
  have solid : ' ' ∉ (Text.unlines (seederCalls s order)).toList := by
    intro space
    rcases Text.of_mem_unlines space with feed | ⟨call, isCall, inside⟩
    · exact absurd feed (by decide)
    · exact (clear_of_mem_seederCalls isCall).1 inside
  have absent : ∀ marker : String, ' ' ∈ marker.toList →
      Text.has marker (Text.unlines (seederCalls s order)) = false := by
    intro marker space
    rw [Bool.eq_false_iff, ne_eq, Text.has_iff]
    exact fun here => solid (here.subset space)
  exact ⟨absent _ (by decide), absent _ (by decide)⟩

/-! ## Merging -/

/-- It is the same whether a file with a section is made anew or merged into one that was made for
another schema, whose section holds no marker. The calls of seeders never hold one. -/
theorem merge_fresh :
    (∀ s t : Schema, Markers.routes.AreFree (routesSection s) → ∀ anchor indent,
      Section.merge .routes (routesSection t) anchor indent (routesPage (routesSection s)) =
        (.replaced, routesPage (routesSection t))) ∧
    ∀ (s t : Schema) (order order' : List String),
      Section.merge .seeders (seederCalls t order') (some Section.seederAnchor) seederIndent
        (databaseSeederPage s order) = (.replaced, databaseSeederPage t order') := by
  constructor
  · intro s t free anchor indent
    have blank : AreBlanks "".toList := fun c mem => absurd mem List.not_mem_nil
    have closed : Chars.find? Markers.routes.opening.toList
        (["<?php", "", "use Illuminate\\Support\\Facades\\Route;", ""].flatMap fun line =>
          line.toList ++ ['\n']) = none := by
      decide +kernel
    exact Section.mergeAfter_unlines (Markers.areApart_of_mem (by simp)) closed
      (List.cons_ne_nil "" []) blank free _ _ _
  · intro s t order order'
    have closed : Chars.find? Markers.seeders.opening.toList (seederHead.flatMap fun line =>
        line.toList ++ ['\n']) = none := by
      decide +kernel
    rw [databaseSeederPage_eq, databaseSeederPage_eq]
    exact Section.mergeAfter_unlines (Markers.areApart_of_mem (by simp)) closed
      (List.cons_ne_nil _ _) areBlanks_seederIndent (areFree_seederCalls s order) _ _ _

/-- A schema with one entity that can be listed and seeded. -/
def listedDocument (name : String) : Json.Members :=
  [("meta", .object []),
    ("models", .object [(name, .object [("fields", .object [("title", .string "string")]),
      ("routes", .array [.string "list"]), ("seeder", .bool true)])])]

/-- The files of a schema of tags become those of a schema of posts, when the lines of these are
merged into them. -/
theorem merge_fresh_listed : ∃ s t, Schema.build (listedDocument "Tag") = .ok s ∧
    Schema.build (listedDocument "Post") = .ok t ∧
    routesSection s = ["// Tag routes",
      "Route::get('tags', [\\App\\Http\\Controllers\\TagController::class, 'index']);"] ∧
    routesSection t = ["// Post routes",
      "Route::get('posts', [\\App\\Http\\Controllers\\PostController::class, 'index']);"] ∧
    Markers.routes.AreFree (routesSection s) ∧
    Section.merge .routes (routesSection t) none "" (routesPage (routesSection s)) =
      (.replaced, routesPage (routesSection t)) ∧
    seederCalls s ["Tag"] = ["TagSeeder::class,"] ∧
    seederCalls t ["Post"] = ["PostSeeder::class,"] ∧
    Section.merge .seeders (seederCalls t ["Post"]) (some Section.seederAnchor) seederIndent
      (databaseSeederPage s ["Tag"]) = (.replaced, databaseSeederPage t ["Post"]) := by
  have tags : succeeds (Schema.build (listedDocument "Tag")) (fun s => routesSection s ==
      ["// Tag routes",
        "Route::get('tags', [\\App\\Http\\Controllers\\TagController::class, 'index']);"] &&
      seederCalls s ["Tag"] == ["TagSeeder::class,"]) = true := by
    decide +kernel
  have posts : succeeds (Schema.build (listedDocument "Post")) (fun t => routesSection t ==
      ["// Post routes",
        "Route::get('posts', [\\App\\Http\\Controllers\\PostController::class, 'index']);"] &&
      seederCalls t ["Post"] == ["PostSeeder::class,"]) = true := by
    decide +kernel
  obtain ⟨s, builtTags, holdsTags⟩ := succeeds_eq_true.1 tags
  obtain ⟨t, builtPosts, holdsPosts⟩ := succeeds_eq_true.1 posts
  simp only [Bool.and_eq_true, beq_iff_eq] at holdsTags holdsPosts
  obtain ⟨routes, calls⟩ := holdsTags
  obtain ⟨routes', calls'⟩ := holdsPosts
  have free : Markers.routes.AreFree (routesSection s) := by
    rw [routes]
    decide +kernel
  exact ⟨s, t, builtTags, builtPosts, routes, routes', free, merge_fresh.1 s t free none "",
    calls, calls', merge_fresh.2 s t ["Tag"] ["Post"]⟩

end Render
end Scaffold
