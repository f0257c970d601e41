import Mathlib.Logic.Relation
import Scaffold.Dependency

/-!
# Reachability in graphs

Edges and walks of a graph as relations, and what adding an edge does to them. The main statement
is `Graph.reaches_iff`: the search that keeps the nodes it met on a stack, and takes them out of
those it has not met, comes to a node exactly when a walk leads to it.
-/

namespace Scaffold.Graph
set_option autoImplicit false

/-- The graph has an edge from `source` to `target`. -/
def Edge (graph : Graph) (source target : String) : Prop := target ∈ graph.targets source

/-- A walk leads from `start` to `goal`; the empty walk counts. -/
def Reaches (graph : Graph) : String → String → Prop := Relation.ReflTransGen graph.Edge

/-- The nodes are distinct, and every edge leads to one of them. -/
structure IsClosed (graph : Graph) : Prop where
  nodup : graph.nodes.Nodup
  target_mem : ∀ source target, graph.Edge source target → target ∈ graph.nodes

theorem mem_of_lookup {graph : Graph} {node : String} {targets : List String}
    (h : graph.lookup node = some targets) : (node, targets) ∈ graph := by
  obtain ⟨before, after, rfl, -⟩ := List.lookup_eq_some_iff.1 h
  exact List.mem_append_right _ (List.mem_cons_self ..)

theorem source_mem {graph : Graph} {source target : String} (edge : graph.Edge source target) :
    source ∈ graph.nodes := by
  rw [Edge, targets] at edge
  cases found : graph.lookup source with
  | none => simp [found] at edge
  | some targets => exact List.mem_map.2 ⟨(source, targets), mem_of_lookup found, rfl⟩

/-! The search for a walk -/

/-- An edge to a node that was not met yet. -/
def EdgeInto (graph : Graph) (unseen : List String) (source target : String) : Prop :=
  graph.Edge source target ∧ target ∈ unseen

theorem mem_meet_unseen {targets unseen stack : List String} {node : String} :
    node ∈ (meet targets unseen stack).1 ↔ node ∈ unseen ∧ node ∉ targets := by
  induction targets generalizing unseen stack with
  | nil => simp [meet]
  | cons target rest ih =>
    rw [meet]
    split
    · rw [ih, List.mem_filter, bne_iff_ne, List.mem_cons, not_or, and_assoc]
    · rename_i old
      rw [ih, List.mem_cons, not_or]
      refine and_congr_right fun isUnseen => (and_iff_right ?_).symm
      rintro rfl
      exact old (List.contains_iff_mem.2 isUnseen)

theorem mem_meet_stack {targets unseen stack : List String} {node : String} :
    node ∈ (meet targets unseen stack).2 ↔ node ∈ stack ∨ node ∈ unseen ∧ node ∈ targets := by
  induction targets generalizing unseen stack with
  | nil => simp [meet]
  | cons target rest ih =>
    rw [meet]
    split
    · rename_i new
      have new := List.contains_iff_mem.1 new
      rw [ih, List.mem_cons, List.mem_filter, bne_iff_ne, List.mem_cons]
      by_cases here : node = target
      · simp [here, new]
      · simp [here]
    · rename_i old
      rw [ih, List.mem_cons]
      refine or_congr_right (and_congr_right fun isUnseen => (or_iff_right ?_).symm)
      rintro rfl
      exact old (List.contains_iff_mem.2 isUnseen)

/-- What a walk through nodes not met before comes to when the targets of a node are met: it goes
through none of them, or leaves the last of them for good and goes on through the others. -/
theorem walk_past {graph : Graph} {unseen : List String} {source goal : String}
    (targets : List String) (walk : Relation.ReflTransGen (graph.EdgeInto unseen) source goal) :
    Relation.ReflTransGen (graph.EdgeInto (unseen.filter (· ∉ targets))) source goal ∨
      ∃ node ∈ unseen, node ∈ targets ∧
        Relation.ReflTransGen (graph.EdgeInto (unseen.filter (· ∉ targets))) node goal := by
  induction walk with
  | refl => exact .inl .refl
  | @tail last goal _ edge ih =>
    by_cases isMet : goal ∈ targets
    · exact .inr ⟨goal, edge.2, isMet, .refl⟩
    · have further : graph.EdgeInto (unseen.filter (· ∉ targets)) last goal :=
        ⟨edge.1, List.mem_filter.2 ⟨edge.2, by simpa using isMet⟩⟩
      rcases ih with walk | ⟨node, isUnseen, isTarget, walk⟩
      · exact .inl (walk.tail further)
      · exact .inr ⟨node, isUnseen, isTarget, walk.tail further⟩

/-- From the nodes on the stack the search comes to those to which walks lead through nodes not met
before. -/
theorem seek_iff {graph : Graph} {goal : String} {unseen stack : List String} :
    graph.seek goal unseen stack = true ↔
      ∃ source ∈ stack, Relation.ReflTransGen (graph.EdgeInto unseen) source goal := by
  induction unseen, stack using seek.induct graph with
  | case1 unseen => simp [seek]
  | case2 unseen node stack ih =>
    rw [seek, Bool.or_eq_true, beq_iff_eq, ih]
    have left : graph.EdgeInto (meet (graph.targets node) unseen stack).1 =
        graph.EdgeInto (unseen.filter (· ∉ graph.targets node)) := by
      funext source target
      simp [EdgeInto, mem_meet_unseen]
    rw [left]
    have wider : graph.EdgeInto (unseen.filter (· ∉ graph.targets node)) ≤ graph.EdgeInto unseen :=
      fun _ _ edge => ⟨edge.1, (List.mem_filter.1 edge.2).1⟩
    constructor
    · rintro (rfl | ⟨source, isMet, walk⟩)
      · exact ⟨node, List.mem_cons_self .., .refl⟩
      have walk := Relation.ReflTransGen.mono wider _ _ walk
      rcases mem_meet_stack.1 isMet with old | ⟨isUnseen, isTarget⟩
      · exact ⟨source, List.mem_cons_of_mem _ old, walk⟩
      · exact ⟨node, List.mem_cons_self .., .head ⟨isTarget, isUnseen⟩ walk⟩
    · rintro ⟨source, isMet, walk⟩
      rcases walk_past (graph.targets node) walk with walk | ⟨next, isUnseen, isTarget, walk⟩
      · rcases List.mem_cons.1 isMet with rfl | isMet
        · -- the first edge of a walk from the node itself would lead to one of its targets
          rcases walk.cases_head with same | ⟨next, edge, -⟩
          · exact .inl same
          · have apart : next ∉ graph.targets source := by simpa using (List.mem_filter.1 edge.2).2
            exact absurd edge.1 apart
        · exact .inr ⟨source, mem_meet_stack.2 (.inl isMet), walk⟩
      · exact .inr ⟨next, mem_meet_stack.2 (.inr ⟨isUnseen, isTarget⟩), walk⟩

/-- A walk need not come back to its start. -/
theorem walk_onward {graph : Graph} {start goal : String} (closed : graph.IsClosed)
    (walk : graph.Reaches start goal) :
    Relation.ReflTransGen (graph.EdgeInto (graph.nodes.filter (· != start))) start goal := by
  induction walk with
  | refl => exact .refl
  | @tail last goal _ edge ih =>
    by_cases back : goal = start
    · exact back ▸ .refl
    · exact ih.tail ⟨edge, List.mem_filter.2 ⟨closed.target_mem _ _ edge, bne_iff_ne.2 back⟩⟩

/-- The search finds a node exactly when a walk leads to it. -/
theorem reaches_iff {graph : Graph} (closed : graph.IsClosed) {start goal : String} :
    graph.reaches start goal = true ↔ graph.Reaches start goal := by
  rw [reaches, seek_iff]
  constructor
  · rintro ⟨source, isStart, walk⟩
    obtain rfl := List.mem_singleton.1 isStart
    exact Relation.ReflTransGen.mono (fun _ _ edge => edge.1) _ _ walk
  · intro walk
    exact ⟨start, List.mem_singleton_self start, walk_onward closed walk⟩

/-! Adding an edge -/

theorem nodes_addEdge (graph : Graph) (source target : String) :
    (graph.addEdge source target).nodes = graph.nodes := by
  simp only [addEdge, nodes, List.map_map]
  refine List.map_congr_left fun entry _ => ?_
  simp only [Function.comp]
  split <;> rfl

theorem lookup_addEdge (graph : Graph) (source target node : String) :
    (graph.addEdge source target).lookup node =
      (graph.lookup node).map fun targets => if node = source then targets ++ [target]
        else targets := by
  induction graph with
  | nil => rfl
  | cons entry rest ih =>
    obtain ⟨name, targets⟩ := entry
    simp only [addEdge] at ih
    by_cases here : node = name
    · subst here
      by_cases same : node = source <;> simp [addEdge, same]
    · have apart : (node == name) = false := beq_false_of_ne here
      by_cases same : name = source
      · subst same
        simp [addEdge, List.lookup_cons, apart, ih]
      · simp [addEdge, List.lookup_cons, apart, ih, same]

theorem targets_addEdge {graph : Graph} {source : String} (isNode : source ∈ graph.nodes)
    (target node : String) :
    (graph.addEdge source target).targets node =
      if node = source then graph.targets node ++ [target] else graph.targets node := by
  rw [targets, lookup_addEdge, targets]
  cases found : graph.lookup node with
  | some targets => rfl
  | none =>
    have apart : node ≠ source := by
      rintro rfl
      obtain ⟨entry, mem, rfl⟩ := List.mem_map.1 isNode
      exact absurd (List.lookup_eq_none_iff.1 found entry mem) (by simp)
    simp [apart]

theorem edge_addEdge {graph : Graph} {source : String} (isNode : source ∈ graph.nodes)
    {target first second : String} :
    (graph.addEdge source target).Edge first second ↔
      graph.Edge first second ∨ first = source ∧ second = target := by
  rw [Edge, targets_addEdge isNode, Edge]
  split <;> simp_all

/-- A walk that takes the new edge leads to its source before that, and on from its target. -/
theorem reaches_addEdge {graph : Graph} {source : String} (isNode : source ∈ graph.nodes)
    {target start goal : String} :
    (graph.addEdge source target).Reaches start goal ↔
      graph.Reaches start goal ∨ graph.Reaches start source ∧ graph.Reaches target goal := by
  have old : graph.Edge ≤ (graph.addEdge source target).Edge :=
    fun _ _ edge => (edge_addEdge isNode).2 (.inl edge)
  constructor
  · intro walk
    induction walk with
    | refl => exact .inl .refl
    | tail _ edge ih =>
      rcases (edge_addEdge isNode).1 edge with edge | ⟨rfl, rfl⟩
      · exact ih.imp (·.tail edge) fun ⟨before, after⟩ => ⟨before, after.tail edge⟩
      · exact .inr ⟨ih.elim id And.left, .refl⟩
  · rintro (walk | ⟨before, after⟩)
    · exact Relation.ReflTransGen.mono old _ _ walk
    · exact (Relation.ReflTransGen.mono old _ _ before).trans
        (.head ((edge_addEdge isNode).2 (.inr ⟨rfl, rfl⟩))
          (Relation.ReflTransGen.mono old _ _ after))

theorem IsClosed.addEdge {graph : Graph} (closed : graph.IsClosed) {source target : String}
    (isNode : source ∈ graph.nodes) (targetIsNode : target ∈ graph.nodes) :
    (graph.addEdge source target).IsClosed where
  nodup := nodes_addEdge graph source target ▸ closed.nodup
  target_mem first second edge := by
    rw [nodes_addEdge]
    rcases (edge_addEdge isNode).1 edge with edge | ⟨-, rfl⟩
    · exact closed.target_mem _ _ edge
    · exact targetIsNode

end Scaffold.Graph
