import Scaffold.Proofs.Dependency.Cycles
import Scaffold.Proofs.Dependency.Order

/-!
# Visits of a depth-first search

A search visits a node when it meets it: it looks at the targets of the node one after the other,
visits those that were not met before, and then the node is through. `Graph.Visits` says this
without the path that the search keeps, and `Graph.visits_order` that the order of a graph is the
order in which the visits to all its nodes end. The main statement is
`Schema.dependencyOrder_eq_keys_iff`: entities that are declared after all they depend on stay in
the order of declaration.
-/

namespace Scaffold
set_option autoImplicit false

namespace Graph

/-- With the nodes of `unseen` not met yet, a search looks at targets one after the other. Those of
`left` are not met afterwards, and those of `through` came to be through, in that order. -/
inductive Visits (targetsOf : String → List String) :
    List String → List String → List String → List String → Prop
  | nil (unseen : List String) : Visits targetsOf unseen [] unseen []
  | skip {unseen rest left through : List String} {target : String} (met : target ∉ unseen)
      (later : Visits targetsOf unseen rest left through) :
      Visits targetsOf unseen (target :: rest) left through
  | enter {unseen rest between left inner outer : List String} {target : String}
      (new : target ∈ unseen)
      (visit : Visits targetsOf (unseen.erase target) (targetsOf target) between inner)
      (later : Visits targetsOf between rest left outer) :
      Visits targetsOf unseen (target :: rest) left (inner ++ target :: outer)

namespace Visits

variable {targetsOf : String → List String} {unseen looked left through : List String}
  {node target : String}

theorem sublist (visits : Visits targetsOf unseen looked left through) : left.Sublist unseen := by
  induction visits with
  | nil => exact .refl _
  | skip _ _ ih => exact ih
  | enter _ _ _ visit later => exact (later.trans visit).trans List.erase_sublist

open List in
/-- The nodes that were met are through. -/
theorem perm (visits : Visits targetsOf unseen looked left through) : through ++ left ~ unseen := by
  induction visits with
  | nil => exact .refl _
  | skip _ _ ih => exact ih
  | @enter unseen rest between left inner outer target new _ _ visit later =>
    calc (inner ++ target :: outer) ++ left
      _ = inner ++ target :: (outer ++ left) := by simp
      _ ~ target :: (inner ++ (outer ++ left)) := perm_middle
      _ ~ target :: (inner ++ between) := (later.append_left inner).cons target
      _ ~ target :: unseen.erase target := visit.cons target
      _ ~ unseen := (perm_cons_erase new).symm

theorem mem_or_mem (visits : Visits targetsOf unseen looked left through) (h : node ∈ unseen) :
    node ∈ through ∨ node ∈ left :=
  List.mem_append.1 (visits.perm.mem_iff.2 h)

theorem mem_unseen (visits : Visits targetsOf unseen looked left through) (h : node ∈ through) :
    node ∈ unseen :=
  visits.perm.mem_iff.1 (List.mem_append_left _ h)

/-- A target that was looked at is met afterwards. -/
theorem not_mem_left (visits : Visits targetsOf unseen looked left through) (nodup : unseen.Nodup)
    (h : target ∈ looked) : target ∉ left := by
  induction visits with
  | nil => exact absurd h List.not_mem_nil
  | skip met later ih =>
    rcases List.mem_cons.1 h with rfl | h
    · exact fun mem => met (later.sublist.mem mem)
    · exact ih nodup h
  | enter _ visit later _ ih =>
    rcases List.mem_cons.1 h with rfl | h
    · exact fun mem => nodup.not_mem_erase (visit.sublist.mem (later.sublist.mem mem))
    · exact ih ((nodup.erase _).sublist visit.sublist) h

/-- By the time that a node is through, all its targets are met. -/
theorem target_not_mem_left (visits : Visits targetsOf unseen looked left through)
    (nodup : unseen.Nodup) (h : node ∈ through) (edge : target ∈ targetsOf node) :
    target ∉ left := by
  induction visits with
  | nil => exact absurd h List.not_mem_nil
  | skip _ _ ih => exact ih nodup h
  | @enter _ _ _ _ _ _ first _ visit later inside outside =>
    have nodup' := nodup.erase first
    rcases List.mem_append.1 h with h | h
    · exact fun mem => inside nodup' h (later.sublist.mem mem)
    rcases List.mem_cons.1 h with rfl | h
    · exact fun mem => visit.not_mem_left nodup' edge (later.sublist.mem mem)
    · exact outside (nodup'.sublist visit.sublist) h

/-- A node that is through was looked at, or it is a target of one that came to be through after
it. -/
theorem looked_or_parent (visits : Visits targetsOf unseen looked left through)
    (h : node ∈ through) :
    node ∈ looked ∨ ∃ parent, node ∈ targetsOf parent ∧ Before through node parent := by
  induction visits with
  | nil => exact absurd h List.not_mem_nil
  | skip _ _ ih => exact (ih h).imp_left (List.mem_cons_of_mem _)
  | @enter _ _ _ _ inner outer target _ _ _ inside outside =>
    rcases List.mem_append.1 h with h | h
    · right
      rcases inside h with edge | ⟨parent, edge, before⟩
      · exact ⟨target, edge, inner, outer, rfl, h⟩
      · exact ⟨parent, edge, before.append _⟩
    rcases List.mem_cons.1 h with rfl | h
    · exact .inl (List.mem_cons_self ..)
    · refine (outside h).imp (List.mem_cons_of_mem _) ?_
      rintro ⟨parent, edge, before⟩
      have later : outer.Sublist (inner ++ target :: outer) :=
        (List.sublist_cons_self ..).trans (List.sublist_append_right ..)
      exact ⟨parent, edge, before.mono later⟩

/-- What was met before is passed over. -/
theorem of_met (met : ∀ target ∈ looked, target ∉ unseen) :
    Visits targetsOf unseen looked unseen [] := by
  induction looked with
  | nil => exact .nil unseen
  | cons target rest ih =>
    exact .skip (met target (List.mem_cons_self ..)) (ih fun other mem =>
      met other (List.mem_cons_of_mem _ mem))

/-- There is one way only in which the visits can go. -/
theorem unique {left' through' : List String} (visits : Visits targetsOf unseen looked left through)
    (visits' : Visits targetsOf unseen looked left' through') :
    left = left' ∧ through = through' := by
  induction visits generalizing left' through' with
  | nil =>
    cases visits'
    exact ⟨rfl, rfl⟩
  | skip met _ ih =>
    cases visits' with
    | skip _ later => exact ih later
    | enter new => exact absurd new met
  | enter new _ _ inside outside =>
    cases visits' with
    | skip met => exact absurd new met
    | enter _ visit later =>
      obtain ⟨rfl, rfl⟩ := inside visit
      obtain ⟨rfl, rfl⟩ := outside later
      exact ⟨rfl, rfl⟩

end Visits

/-- The visits always come to an end. -/
theorem exists_visits (targetsOf : String → List String) (unseen looked : List String) :
    ∃ left through, Visits targetsOf unseen looked left through := by
  induction counted : unseen.length using Nat.strongRecOn generalizing unseen looked with
  | ind count fewer =>
    induction looked with
    | nil => exact ⟨unseen, [], .nil unseen⟩
    | cons target rest ih =>
      by_cases new : target ∈ unseen
      · have one : (unseen.erase target).length < count := by
          rw [List.length_erase_of_mem new, ← counted]
          exact Nat.sub_one_lt_of_lt (List.length_pos_of_mem new)
        obtain ⟨between, inner, visit⟩ := fewer _ one (unseen.erase target) (targetsOf target) rfl
        have less : between.length < count := visit.sublist.length_le.trans_lt one
        obtain ⟨left, outer, later⟩ := fewer _ less between rest rfl
        exact ⟨left, inner ++ target :: outer, .enter new visit later⟩
      · obtain ⟨left, through, later⟩ := ih
        exact ⟨left, through, .skip new later⟩

variable {graph : Graph}

/-! ## The search and its visits -/

namespace Search

theorem run_eq_of_step {search next : Search} (h : search.step graph = some next) :
    search.run graph = next.run graph := by
  rw [run]
  split <;> simp_all

/-- While the visits below the last node in progress go on, the nodes in progress before it wait. -/
theorem run_of_visits {unseen looked left through : List String}
    (visits : Visits graph.targets unseen looked left through)
    (node : String) (outer : List (String × List String)) (done : List String)
    (cycles : List (List String)) :
    ∃ cycles', run graph ⟨(node, looked) :: outer, unseen, done, cycles⟩ =
      run graph ⟨(node, []) :: outer, left, done ++ through, cycles'⟩ := by
  induction visits generalizing node outer done cycles with
  | nil => exact ⟨cycles, by rw [List.append_nil]⟩
  | @skip unseen rest left through target met _ ih =>
    have next : ∃ cycles', step graph ⟨(node, target :: rest) :: outer, unseen, done, cycles⟩ =
        some ⟨(node, rest) :: outer, unseen, done, cycles'⟩ := by
      simp only [step, look, List.contains_iff_mem, if_neg met]
      split
      · obtain ⟨cycles', closed⟩ := close_eq ⟨(node, rest) :: outer, unseen, done, cycles⟩ target
        exact ⟨cycles', by rw [closed]⟩
      · exact ⟨cycles, rfl⟩
    obtain ⟨cycles', next⟩ := next
    rw [run_eq_of_step next]
    exact ih node outer done cycles'
  | @enter unseen rest between left inner outer' target new _ _ inside outside =>
    have first : step graph ⟨(node, target :: rest) :: outer, unseen, done, cycles⟩ =
        some ⟨(target, graph.targets target) :: (node, rest) :: outer, unseen.erase target,
          done, cycles⟩ := by
      simp only [step, look, List.contains_iff_mem, if_pos new, enter]
    obtain ⟨cycles', below⟩ := inside target ((node, rest) :: outer) done cycles
    have last :
        step graph ⟨(target, []) :: (node, rest) :: outer, between, done ++ inner, cycles'⟩ =
        some ⟨(node, rest) :: outer, between, done ++ inner ++ [target], cycles'⟩ := rfl
    obtain ⟨cycles'', later⟩ := outside node outer (done ++ inner ++ [target]) cycles'
    refine ⟨cycles'', ?_⟩
    rw [run_eq_of_step first, below, run_eq_of_step last, later]
    simp

/-- A search without a node in progress goes on to visit what it has not met. -/
theorem done_of_visits {unseen roots left through : List String}
    (visits : Visits graph.targets unseen roots left through)
    (nodup : roots.Nodup) (sub : unseen.Sublist roots) (done : List String)
    (cycles : List (List String)) :
    (run graph ⟨[], unseen, done, cycles⟩).done = done ++ through := by
  induction visits generalizing done cycles with
  | nil =>
    obtain rfl := List.sublist_nil.1 sub
    rw [run]
    simp [step]
  | skip met _ ih =>
    rcases List.sublist_cons_iff.1 sub with sub | ⟨others, rfl, -⟩
    · exact ih (List.nodup_cons.1 nodup).2 sub done cycles
    · exact absurd (List.mem_cons_self ..) met
  | @enter unseen rest between left inner outer target new visit _ _ outside =>
    obtain ⟨fresh, nodup⟩ := List.nodup_cons.1 nodup
    rcases List.sublist_cons_iff.1 sub with absent | ⟨others, rfl, behind⟩
    · exact absurd (absent.mem new) fresh
    rw [List.erase_cons_head] at visit
    have first : step graph ⟨[], target :: others, done, cycles⟩ =
        some ⟨[(target, graph.targets target)], others, done, cycles⟩ := by
      simp [step, enter]
    obtain ⟨cycles', below⟩ := run_of_visits visit target [] done cycles
    have last : step graph ⟨[(target, [])], between, done ++ inner, cycles'⟩ =
        some ⟨[], between, done ++ inner ++ [target], cycles'⟩ := rfl
    rw [run_eq_of_step first, below, run_eq_of_step last,
      outside nodup (visit.sublist.trans behind)]
    simp

end Search

/-- The order of a graph is that in which the visits to its nodes, one after the other, end. -/
theorem visits_order (nodup : graph.nodes.Nodup) :
    Visits graph.targets graph.nodes graph.nodes [] graph.order := by
  obtain ⟨left, through, visits⟩ := exists_visits graph.targets graph.nodes graph.nodes
  have empty : left = [] :=
    List.eq_nil_iff_forall_not_mem.2 fun node mem =>
      visits.not_mem_left nodup (visits.sublist.mem mem) mem
  have done : graph.order = [] ++ through :=
    Search.done_of_visits visits nodup (List.Sublist.refl _) [] []
  rw [done, List.nil_append, ← empty]
  exact visits

/-- Nodes that stand after all their targets are visited one by one. -/
theorem visits_of_sorted (front : List String) {rest : List String}
    (whole : graph.nodes = front ++ rest) (nodup : graph.nodes.Nodup)
    (sorted : ∀ node target, graph.Edge node target → Before graph.nodes target node) :
    Visits graph.targets rest rest [] rest := by
  induction rest generalizing front with
  | nil => exact .nil []
  | cons node rest ih =>
    have whole' : graph.nodes = (front ++ [node]) ++ rest := by simpa using whole
    have met : ∀ target ∈ graph.targets node, target ∉ rest := by
      intro target edge again
      have later : Before graph.nodes node target :=
        whole' ▸ before_append (List.mem_append_right _ (List.mem_singleton_self node)) again
      exact lt_asymm (later.idxOf_lt nodup) ((sorted node target edge).idxOf_lt nodup)
    have visit : Visits graph.targets ((node :: rest).erase node) (graph.targets node) rest [] := by
      rw [List.erase_cons_head]
      exact .of_met met
    exact .enter (List.mem_cons_self ..) visit (ih (front ++ [node]) whole')

/-- Nodes that stand after all their targets are in order. -/
theorem order_eq_nodes (nodup : graph.nodes.Nodup)
    (sorted : ∀ node target, graph.Edge node target → Before graph.nodes target node) :
    graph.order = graph.nodes :=
  ((visits_order nodup).unique (visits_of_sorted [] rfl nodup sorted)).2

end Graph

namespace Schema

/-- Every entity is declared after all those it depends on exactly when none of them leads back and
the order is that of the declaration. In particular entities that do not depend on each other are
not reordered. -/
theorem dependencyOrder_eq_keys_iff (s : Schema) :
    (∀ name target, s.dependencyGraph.Edge name target → Before s.entities.keys target name) ↔
      s.dependencyOrder = s.entities.keys ∧
      ∀ name, ¬ Relation.TransGen s.dependencyGraph.Edge name name := by
  have closed := s.dependencyGraph_grown.closed
  have nodes : s.dependencyGraph.nodes = s.entities.keys :=
    s.dependencyGraph_grown.nodes.trans s.nodes_belongsToGraph
  constructor
  · intro sorted
    refine ⟨?_, Graph.acyclic_of_before s.entities.nodup sorted⟩
    rw [dependencyOrder, ← nodes]
    exact Graph.order_eq_nodes closed.nodup (nodes ▸ sorted)
  · rintro ⟨same, acyclic⟩ name target edge
    rw [← same]
    exact (Graph.before_or_reaches closed edge).resolve_right fun back =>
      acyclic name (.head' edge back)

end Schema
end Scaffold
