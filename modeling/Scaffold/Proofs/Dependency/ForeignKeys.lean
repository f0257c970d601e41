import Scaffold.Proofs.Dependency.Cycles
import Scaffold.Proofs.Dependency.Order

/-!
# Edges from foreign keys

The graph of the dependencies holds the relations between entities and, of the foreign keys, those
that close no cycle with the edges that are there already. The main statement,
`Schema.dependencyGraph_exact`, says which edges these are: the cycles are those of the relations,
and a foreign key without an edge is one whose edge would close a cycle.
-/

namespace Scaffold
set_option autoImplicit false

namespace Graph

variable {base graph : Graph} {first second : String}

/-- An edge of a cycle leads on to where it came from. -/
theorem IsCycle.reaches_back {cycle : List String} (h : graph.IsCycle cycle)
    (inside : [first, second] <:+: cycle) : graph.Reaches second first := by
  obtain ⟨front, back, rfl⟩ := inside
  have whole : front ++ [first, second] ++ back = (front ++ [first]) ++ (second :: back) := by simp
  obtain ⟨walk, closed, -, -⟩ := h
  rw [whole] at walk closed
  have filled : front ++ [first] ≠ [] := by simp
  have more : second :: back ≠ [] := by simp
  have onward :=
    List.relationReflTransGen_of_exists_isChain (second :: back) walk.right_of_append more
  have around :=
    List.relationReflTransGen_of_exists_isChain (front ++ [first]) walk.left_of_append filled
  have same : (second :: back).getLast more = (front ++ [first]).head filled := by
    rw [List.head?_append_of_ne_nil _ filled, List.getLast?_append_of_ne_nil _ more,
      List.head?_eq_some_head filled, List.getLast?_eq_some_getLast more] at closed
    exact (Option.some.inj closed).symm
  rw [List.head_cons, same] at onward
  rw [List.getLast_concat] at around
  exact onward.trans around

/-- The edges that a graph has grown by are on no cycle. -/
theorem Grown.isCycle_iff (grown : Grown base graph) {cycle : List String} :
    graph.IsCycle cycle ↔ base.IsCycle cycle := by
  constructor
  · intro h
    refine ⟨?_, h.closed, h.nodup, h.several⟩
    have walk := h.walk
    rw [List.isChain_iff_forall_rel_of_append_cons_cons] at walk ⊢
    intro first second front back split
    have inside : [first, second] <:+: cycle := ⟨front, back, by simp [split]⟩
    exact (grown.edges first second (walk split)).resolve_right fun noCycle =>
      noCycle (h.reaches_back inside)
  · intro h
    exact ⟨h.walk.imp fun first second edge => grown.kept first second edge, h.closed,
      h.nodup, h.several⟩

theorem Grown.reaches (grown : Grown base graph) (walk : base.Reaches first second) :
    graph.Reaches first second :=
  Relation.ReflTransGen.mono grown.kept _ _ walk

theorem Grown.isLoopless (grown : Grown base graph) (loopless : base.IsLoopless) :
    graph.IsLoopless := by
  intro node loop
  rcases grown.edges node node loop with old | noCycle
  · exact loopless node old
  · exact noCycle .refl

end Graph

namespace Schema

variable {s : Schema} {name owner table : String}

theorem belongsToGraph_loopless (s : Schema) : s.belongsToGraph.IsLoopless := by
  intro name loop
  obtain ⟨-, -, -, -, apart⟩ := edge_belongsToGraph.1 loop
  exact apart rfl

/-- An edge that is no relation is that of a foreign key. -/
theorem edge_graphAfter {keys : List (String × String)} (known : keys ⊆ s.foreignKeys)
    (edge : (s.graphAfter keys).Edge name owner) :
    s.belongsToGraph.Edge name owner ∨ ∃ table, (name, table) ∈ keys ∧
    s.tables.get? table = some owner := by
  induction keys using List.reverseRecOn with
  | nil => exact .inl edge
  | append_singleton keys key ih =>
    obtain ⟨known, isKey⟩ := List.append_subset.1 known
    have grown := graphAfter_grown known
    have isNode := foreignKey_mem_nodes known (isKey (List.mem_singleton_self key))
    have old : (s.graphAfter keys).Edge name owner → s.belongsToGraph.Edge name owner ∨
        ∃ table, (name, table) ∈ keys ++ [key] ∧ s.tables.get? table = some owner := by
      intro edge
      refine (ih known edge).imp_right ?_
      rintro ⟨table, isKey, owned⟩
      exact ⟨table, List.mem_append_left _ isKey, owned⟩
    rw [graphAfter_concat] at edge
    rcases addForeign_cases grown.closed key.1 key.2 with ⟨same, -⟩ | ⟨found, owned, -, -, -, added⟩
    · exact old (same ▸ edge)
    · rw [added, Graph.edge_addEdge isNode] at edge
      rcases edge with edge | ⟨rfl, rfl⟩
      · exact old edge
      · exact .inr ⟨key.2, List.mem_append_right _ (List.mem_singleton_self key), owned⟩

/-- A foreign key to a table of another entity has its edge, unless a walk leads back from there. -/
theorem edge_or_reaches_back (refers : s.RefersTo name table)
    (owned : s.tables.get? table = some owner) (apart : owner ≠ name) :
    s.dependencyGraph.Edge name owner ∨ s.dependencyGraph.Reaches owner name := by
  obtain ⟨front, back, split⟩ := List.append_of_mem (mem_foreignKeys.2 refers)
  have split : s.foreignKeys = (front ++ [(name, table)]) ++ back := by simpa using split
  have later : Graph.Grown (s.graphAfter (front ++ [(name, table)])) s.dependencyGraph := by
    rw [← graphAfter_foreignKeys, split]
    exact graphAfter_append_grown (split ▸ List.Subset.refl _)
  have known : front ++ [(name, table)] ⊆ s.foreignKeys := split ▸ List.subset_append_left ..
  have before := graphAfter_grown (List.append_subset.1 known).1
  have isNode := foreignKey_mem_nodes (List.append_subset.1 known).1 (mem_foreignKeys.2 refers)
  rw [graphAfter_concat] at later
  rcases addForeign_cases before.closed name table with ⟨same, skipped⟩ | ⟨found, isOwner,
    -, -, -, added⟩
  · rw [same] at later
    rcases skipped owner owned with self | edge | back
    · exact absurd self apart
    · exact .inl (later.kept name owner edge)
    · exact .inr (later.reaches back)
  · obtain rfl := Option.some.inj (owned.symm.trans isOwner)
    rw [added] at later
    exact .inl (later.kept name owner ((Graph.edge_addEdge isNode).2 (.inr ⟨rfl, rfl⟩)))

/-- The graph has every relation and, besides, edges from entities to the owners of the tables to
which their foreign keys refer. Its cycles are those of the relations alone, and no edge more could
be added to it: where the edge of a foreign key to another entity is missing, a walk leads back from
there. On each of the graphs by which it grows, one foreign key after the other, the search that
tells whether a walk leads back does so. -/
theorem dependencyGraph_exact (s : Schema) :
    (∀ u v, s.belongsToGraph.Edge u v → s.dependencyGraph.Edge u v) ∧
    (∀ cycle, s.dependencyGraph.IsCycle cycle ↔ s.belongsToGraph.IsCycle cycle) ∧
    s.belongsToGraph.IsLoopless ∧ s.dependencyGraph.IsLoopless ∧
    (∀ u v, s.dependencyGraph.Edge u v → ¬ s.belongsToGraph.Edge u v →
      ∃ table, s.RefersTo u table ∧ s.tables.get? table = some v) ∧
    (∀ u table v, s.RefersTo u table → s.tables.get? table = some v → v ≠ u →
      s.dependencyGraph.Edge u v ∨ s.dependencyGraph.Reaches v u) ∧
    s.graphAfter s.foreignKeys = s.dependencyGraph ∧
    (∀ keys, keys <+: s.foreignKeys → ∀ start goal,
      (s.graphAfter keys).reaches start goal = true ↔ (s.graphAfter keys).Reaches start goal) := by
  have grown := s.dependencyGraph_grown
  have loopless := s.belongsToGraph_loopless
  refine ⟨grown.kept, fun _ => grown.isCycle_iff, loopless, grown.isLoopless loopless, ?_, ?_,
    s.graphAfter_foreignKeys, ?_⟩
  · intro u v edge new
    rw [← graphAfter_foreignKeys] at edge
    obtain ⟨table, isKey, owned⟩ := (edge_graphAfter (List.Subset.refl _) edge).resolve_left new
    exact ⟨table, mem_foreignKeys.1 isKey, owned⟩
  · intro u table v refers owned apart
    exact edge_or_reaches_back refers owned apart
  · intro keys isPrefix start goal
    exact Graph.reaches_iff (graphAfter_grown isPrefix.subset).closed

end Schema
end Scaffold
