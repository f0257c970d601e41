import Mathlib.Data.List.Chain
import Scaffold.Proofs.Dependency.Reachability

/-!
# Depth-first search

`Search.Sound` holds at every moment of a search: the nodes in progress form a walk, so a target
that is met again while it is in progress reaches the node that looks at it. Hence the main
statement, `Graph.before_or_reaches`: a node comes after each of its targets but those from which a
walk leads back to it.
-/

namespace Scaffold
set_option autoImplicit false

/-- On a list of distinct texts: `first` stands before `second`. -/
def Before (list : List String) (first second : String) : Prop :=
  ∃ front back, list = front ++ second :: back ∧ first ∈ front

theorem Before.append {list : List String} {first second : String} (h : Before list first second)
    (more : List String) : Before (list ++ more) first second := by
  obtain ⟨front, back, rfl, mem⟩ := h
  exact ⟨front, back ++ more, by simp, mem⟩

theorem before_append_singleton {list : List String} {first second : String} (h : first ∈ list) :
    Before (list ++ [second]) first second := ⟨list, [], rfl, h⟩

namespace Graph.Search

/-- What holds at every moment of a depth-first search. -/
structure Sound (graph : Graph) (search : Search) : Prop where
  nodes : (search.unseen ++ search.inProgress ++ search.done).Perm graph.nodes
  /-- Each node in progress is a target of the one before it. -/
  walk : search.inProgress.IsChain fun inner outer => graph.Edge outer inner
  targets : ∀ frame ∈ search.path, ∀ target ∈ frame.2, graph.Edge frame.1 target
  met : ∀ frame ∈ search.path, ∀ target, graph.Edge frame.1 target → target ∈ frame.2 ∨
    target ∉ search.unseen
  ordered : ∀ node ∈ search.done, ∀ target, graph.Edge node target →
    Before search.done target node ∨ graph.Reaches target node

variable {graph : Graph} {search next : Search}

theorem Sound.initial (graph : Graph) : Sound graph { unseen := graph.nodes } where
  nodes := by simp [inProgress]
  walk := .nil
  targets := by simp
  met := by simp
  ordered := by simp

/-- Every node in progress reaches the last one. -/
theorem reaches_of_walk {last : String} {path : List String}
    (walk : (last :: path).IsChain fun inner outer => graph.Edge outer inner) {node : String}
    (h : node ∈ last :: path) : graph.Reaches node last := by
  induction path generalizing last with
  | nil =>
    obtain rfl := List.mem_singleton.1 h
    exact .refl
  | cons outer path ih =>
    obtain ⟨edge, walk⟩ := List.isChain_cons_cons.1 walk
    rcases List.mem_cons.1 h with rfl | h
    · exact .refl
    · exact (ih walk h).tail edge

theorem Sound.nodup (closed : graph.IsClosed) (sound : Sound graph search) :
    (search.unseen ++ search.inProgress ++ search.done).Nodup :=
  sound.nodes.nodup_iff.2 closed.nodup

/-- A node of the graph that was met is in progress or through. -/
theorem Sound.inProgress_or_done (sound : Sound graph search) {node : String}
    (isNode : node ∈ graph.nodes) (h : node ∉ search.unseen) :
    node ∈ search.inProgress ∨ node ∈ search.done := by
  have mem := sound.nodes.mem_iff.2 isNode
  simp only [List.mem_append] at mem
  tauto

/-- A node that was not met before is entered: from the last one in progress, if there is one. -/
theorem Sound.enter (sound : Sound graph search) {node : String} (new : node ∈ search.unseen)
    (edge : ∀ last ∈ search.inProgress.head?, graph.Edge last node) :
    Sound graph (search.enter graph node) where
  nodes := by
    refine List.Perm.trans ?_ sound.nodes
    have moved : (search.unseen.erase node ++ node :: (search.inProgress ++ search.done)).Perm
        (search.unseen ++ (search.inProgress ++ search.done)) :=
      List.perm_middle.trans ((List.perm_cons_erase new).symm.append_right _)
    simpa [Search.enter, inProgress] using moved
  walk := List.isChain_cons.2 ⟨edge, sound.walk⟩
  targets frame mem target h := by
    rcases List.mem_cons.1 mem with rfl | mem
    · exact h
    · exact sound.targets frame mem target h
  met frame mem target h := by
    rcases List.mem_cons.1 mem with rfl | mem
    · exact .inl h
    · exact (sound.met frame mem target h).imp_right fun seen unseen =>
        seen (List.mem_of_mem_erase unseen)
  ordered := sound.ordered

/-- A node in progress is done with a target that is not new. -/
theorem Sound.skip {node target : String} {rest : List String} (inner : List (String × List String))
    {outer : List (String × List String)} (sound : Sound graph search)
    (here : search.path = inner ++ (node, target :: rest) :: outer)
    (seen : target ∉ search.unseen) :
    Sound graph { search with path := inner ++ (node, rest) :: outer } := by
  have same : Search.inProgress { search with path := inner ++ (node, rest) :: outer } =
      search.inProgress := by
    simp [inProgress, here]
  -- every frame has the node of an earlier one, and its targets but the one looked at
  have earlier : ∀ frame ∈ inner ++ (node, rest) :: outer, ∃ known ∈ search.path,
      known.1 = frame.1 ∧ (∀ other ∈ frame.2, other ∈ known.2) ∧ ∀ other ∈ known.2,
      other ∈ frame.2 ∨ other = target := by
    rw [here]
    intro frame mem
    rcases List.mem_append.1 mem with mem | mem
    · exact ⟨frame, by simp [mem], rfl, fun _ => id, fun _ => .inl⟩
    rcases List.mem_cons.1 mem with rfl | mem
    · refine ⟨(node, target :: rest),
        by simp, rfl, fun _ => List.mem_cons_of_mem _, fun other h => ?_⟩
      exact (List.mem_cons.1 h).symm
    · exact ⟨frame, by simp [mem], rfl, fun _ => id, fun _ => .inl⟩
  refine ⟨same ▸ sound.nodes, same ▸ sound.walk, fun frame mem other h => ?_,
    fun frame mem other edge => ?_, sound.ordered⟩
  · obtain ⟨known, mem, eq, sub, -⟩ := earlier frame mem
    exact eq ▸ sound.targets known mem other (sub other h)
  · obtain ⟨known, mem, eq, -, left⟩ := earlier frame mem
    rcases sound.met known mem other (eq ▸ edge) with h | h
    · rcases left other h with h | rfl
      · exact .inl h
      · exact .inr seen
    · exact .inr h

theorem Sound.close (sound : Sound graph search) (target : String) :
    Sound graph (search.close target) := by
  obtain ⟨cycles, eq⟩ := close_eq search target
  rw [eq]
  exact ⟨sound.nodes, sound.walk, sound.targets, sound.met, sound.ordered⟩

/-- The last node in progress takes its next target. -/
theorem Sound.look {node target : String} {rest : List String} {path : List (String × List String)}
    (closed : graph.IsClosed) (sound : Sound graph search)
    (here : search.path = (node, target :: rest) :: path) :
    Sound graph ({ search with path := (node, rest) :: path }.look graph target) := by
  unfold Search.look
  split
  · rename_i new
    have new : target ∈ search.unseen := List.contains_iff_mem.1 new
    have edge : ∀ last ∈ search.inProgress.head?, graph.Edge last target := by
      intro last isLast
      obtain rfl : node = last := by simpa [inProgress, here] using isLast
      exact sound.targets (node, target :: rest) (by simp [here]) target (List.mem_cons_self ..)
    have nodup : search.unseen.Nodup :=
      (List.nodup_append.1 (List.nodup_append.1 (sound.nodup closed)).1).1
    have gone : target ∉ search.unseen.erase target := nodup.not_mem_erase
    exact .skip [(target, graph.targets target)] (sound.enter new edge)
      (by simp [Search.enter, here]) gone
  · rename_i seen
    have seen : target ∉ search.unseen := fun mem => seen (List.contains_iff_mem.2 mem)
    have sound := Sound.skip [] sound here seen
    split
    · exact sound.close target
    · exact sound

/-- The last node in progress has no target left to look at. -/
theorem Sound.finish {node : String} {path : List (String × List String)} (closed : graph.IsClosed)
    (sound : Sound graph search) (here : search.path = (node, []) :: path) :
    Sound graph { search with path := path, done := search.done ++ [node] } where
  nodes := by
    refine List.Perm.trans ?_ sound.nodes
    have moved : (path.map (·.1) ++ (search.done ++ [node])).Perm
        (node :: (path.map (·.1) ++ search.done)) := by
      rw [← List.append_assoc]
      exact List.perm_append_singleton _ _
    simpa [inProgress, here] using moved.append_left search.unseen
  walk := by
    have walk := sound.walk
    rw [inProgress, here, List.map_cons, List.isChain_cons] at walk
    exact walk.2
  targets frame mem := sound.targets frame (by simp [here, mem])
  met frame mem := sound.met frame (by simp [here, mem])
  ordered earlier mem target edge := by
    rcases List.mem_append.1 mem with mem | mem
    · exact (sound.ordered earlier mem target edge).imp_left fun before => before.append _
    · obtain rfl := List.mem_singleton.1 mem
      -- every target was met: it is through already, or it is still in progress and reaches the
      -- node
      have seen : target ∉ search.unseen := by
        rcases sound.met (earlier, []) (by simp [here]) target edge with h | h
        · exact absurd h List.not_mem_nil
        · exact h
      rcases sound.inProgress_or_done (closed.target_mem _ _ edge) seen with h | h
      · have walk := sound.walk
        rw [inProgress, here] at h walk
        exact .inr (reaches_of_walk walk h)
      · exact .inl (before_append_singleton h)

/-- One step keeps the search sound. -/
theorem Sound.step (closed : graph.IsClosed) (sound : Sound graph search)
    (h : search.step graph = some next) : Sound graph next := by
  match here : search.path with
  | (node, []) :: path =>
    simp only [Search.step, here, Option.some.injEq] at h
    exact h ▸ sound.finish closed here
  | (node, target :: rest) :: path =>
    simp only [Search.step, here, Option.some.injEq] at h
    exact h ▸ sound.look closed here
  | [] =>
    simp only [Search.step, here, Option.map_eq_some_iff] at h
    obtain ⟨root, isHead, rfl⟩ := h
    exact sound.enter (List.mem_of_mem_head? isHead) (by simp [inProgress, here])

/-- A search that can take no further step has met every node, and is through with it. -/
theorem exhausted (h : search.step graph = none) : search.path = [] ∧ search.unseen = [] := by
  match here : search.path with
  | (node, []) :: path => simp [Search.step, here] at h
  | (node, target :: rest) :: path => simp [Search.step, here] at h
  | [] =>
    simp only [Search.step, here, Option.map_eq_none_iff, List.head?_eq_none_iff] at h
    exact ⟨rfl, h⟩

/-- What every step keeps holds when the search comes to its end. -/
theorem run_of_step {holds : Search → Prop}
    (step : ∀ search next, holds search → search.step graph = some next → holds next)
    (start : holds search) : holds (search.run graph) ∧ (search.run graph).step graph = none := by
  induction search using Search.run.induct graph with
  | case1 search last =>
    have stays : search.run graph = search := by
      rw [Search.run]
      split
      · rfl
      · simp_all
    rw [stays]
    exact ⟨start, last⟩
  | case2 search next goesOn ih =>
    have stays : search.run graph = next.run graph := by
      rw [Search.run]
      split <;> simp_all
    rw [stays]
    exact ih (step search next start goesOn)

/-- The search runs until no node is left to be met or in progress, and stays sound. -/
theorem Sound.run (closed : graph.IsClosed) (sound : Sound graph search) :
    Sound graph (search.run graph) ∧ (search.run graph).path = [] ∧
    (search.run graph).unseen = [] := by
  obtain ⟨sound, last⟩ := run_of_step (fun _ _ sound goesOn => Sound.step closed sound goesOn) sound
  exact ⟨sound, exhausted last⟩

end Search

variable {graph : Graph}

/-- The order lists every node exactly once. -/
theorem order_perm (closed : graph.IsClosed) : graph.order.Perm graph.nodes := by
  obtain ⟨sound, path, unseen⟩ := (Search.Sound.initial graph).run closed
  have all := sound.nodes
  rw [Search.inProgress, path, unseen] at all
  exact all

/-- A node comes after each of its targets but those from which a walk leads back to it. -/
theorem before_or_reaches (closed : graph.IsClosed) {node target : String}
    (edge : graph.Edge node target) :
    Before graph.order target node ∨ graph.Reaches target node := by
  have isNode : node ∈ graph.nodes := source_mem edge
  obtain ⟨sound, -, -⟩ := (Search.Sound.initial graph).run closed
  exact sound.ordered node ((order_perm closed).mem_iff.2 isNode) target edge

end Graph
end Scaffold
