import Scaffold.Proofs.Dependency.ForeignKeys
import Scaffold.Proofs.Dependency.Visiting

/-!
# Circles of a graph

A circle is made of all nodes that walks connect both ways. Once a search has entered a circle it
goes round it as if there were no other nodes (`Graph.Visits.around`), and it does not leave the
node by which it entered before it has been at all of them (`Graph.Visits.entry`). Hence the order
of a graph puts the entry of each circle after its other nodes, and these in an order that depends
on nothing but the entry (`Graph.IsCircle.order_eq`).
-/

namespace Scaffold.Graph
set_option autoImplicit false

/-- Walks lead from each of two nodes to the other. -/
def Connected (graph : Graph) (first second : String) : Prop :=
  graph.Reaches first second ∧ graph.Reaches second first

/-- The nodes for which `inside` holds are all those that are connected with one of them. -/
structure IsCircle (graph : Graph) (inside : String → Bool) : Prop where
  node_mem : ∀ node, inside node = true → node ∈ graph.nodes
  reaches : ∀ first second, inside first = true → inside second = true → graph.Reaches first second
  whole : ∀ node other, inside node = true → graph.Connected node other → inside other = true

/-- The targets on a circle of a node on the circle. -/
def targetsInside (graph : Graph) (inside : String → Bool) (node : String) : List String :=
  if inside node then (graph.targets node).filter inside else []

variable {graph other base : Graph} {inside : String → Bool} {node target start goal : String}
  {unseen looked left through : List String}

theorem mem_targetsInside : target ∈ graph.targetsInside inside node ↔
    inside node = true ∧ inside target = true ∧ graph.Edge node target := by
  rw [targetsInside]
  split
  · rename_i here
    simp [here, Edge, and_comm]
  · rename_i there
    simp [there]

theorem targetsInside_of_inside (here : inside node = true) :
    graph.targetsInside inside node = (graph.targets node).filter inside := if_pos here

namespace IsCircle

/-- A walk from the circle to the circle stays on it. -/
theorem walk_inside (circle : graph.IsCircle inside) (walk : graph.Reaches start goal)
    (isStart : inside start = true) (isGoal : inside goal = true) :
    Relation.ReflTransGen (fun source target => target ∈ graph.targetsInside inside source)
      start goal := by
  induction walk using Relation.ReflTransGen.head_induction_on with
  | refl => exact .refl
  | @head first next edge onward ih =>
    have back : graph.Reaches next first := onward.trans (circle.reaches goal first isGoal isStart)
    have isNext := circle.whole first next isStart ⟨.single edge, back⟩
    exact .head (mem_targetsInside.2 ⟨isStart, isNext, edge⟩) (ih isNext)

/-- A target of a node on the circle is on it, or no walk leads from it to the circle. -/
theorem inside_or_apart (circle : graph.IsCircle inside) (here : inside node = true)
    (edge : graph.Edge node target) :
    inside target = true ∨ ∀ goal, inside goal = true → ¬ graph.Reaches target goal := by
  by_cases back : ∃ goal, inside goal = true ∧ graph.Reaches target goal
  · obtain ⟨goal, isGoal, walk⟩ := back
    exact .inl (circle.whole node target here ⟨.single edge,
      walk.trans (circle.reaches goal node isGoal here)⟩)
  · push Not at back
    exact .inr back

end IsCircle

namespace Visits

variable {targetsOf : String → List String}

theorem of_nil (visits : Visits targetsOf unseen [] left through) :
    left = unseen ∧ through = [] := by
  cases visits
  exact ⟨rfl, rfl⟩

/-- Where each target to be looked at is on the circle, or leads to no node of it, a search goes
round the circle as if there were no other nodes. -/
theorem around (circle : graph.IsCircle inside)
    (visits : Visits graph.targets unseen looked left through)
    (apart : ∀ target ∈ looked, inside target = true ∨ ∀ goal, inside goal = true →
      ¬ graph.Reaches target goal) :
    Visits (graph.targetsInside inside) (unseen.filter inside) (looked.filter inside)
      (left.filter inside) (through.filter inside) := by
  induction visits with
  | nil => exact .nil _
  | @skip unseen rest left through target met _ ih =>
    have later := ih fun other mem => apart other (List.mem_cons_of_mem _ mem)
    by_cases here : inside target = true
    · rw [List.filter_cons_of_pos here]
      exact .skip (fun mem => met (List.mem_filter.1 mem).1) later
    · rwa [List.filter_cons_of_neg here]
  | @enter unseen rest between left inner outer target new _ _ below behind =>
    have later := behind fun other mem => apart other (List.mem_cons_of_mem _ mem)
    rw [List.filter_append]
    by_cases here : inside target = true
    · have visit := below fun next edge => circle.inside_or_apart here edge
      rw [← List.erase_filter, ← targetsInside_of_inside here] at visit
      rw [List.filter_cons_of_pos here, List.filter_cons_of_pos here]
      exact .enter (List.mem_filter.2 ⟨new, here⟩) visit later
    · -- below a node that leads to no node of the circle, none is met
      have noWalk := (apart target (List.mem_cons_self ..)).resolve_left here
      have further : ∀ next ∈ graph.targets target, ∀ goal, inside goal = true →
          ¬ graph.Reaches next goal := by
        intro next edge goal isGoal walk
        exact noWalk goal isGoal (.head edge walk)
      have visit := below fun next edge => .inr (further next edge)
      have empty : (graph.targets target).filter inside = [] :=
        List.filter_eq_nil_iff.2 fun next edge isNext => further next edge next isNext .refl
      have absent : target ∉ unseen.filter inside := fun mem => here (List.mem_filter.1 mem).2
      rw [empty, ← List.erase_filter, List.erase_of_not_mem absent] at visit
      obtain ⟨same, nothing⟩ := visit.of_nil
      rw [List.filter_cons_of_neg here, List.filter_cons_of_neg here, nothing,
        List.nil_append, ← same]
      exact later

/-- Before the search leaves the node by which it entered a circle, it has been at all others. -/
theorem none_left (circle : graph.IsCircle inside) (nodup : unseen.Nodup)
    (all : ∀ node, inside node = true → node ∈ unseen) (isStart : inside start = true)
    (visits : Visits (graph.targetsInside inside) ((unseen.filter inside).erase start)
      (graph.targetsInside inside start) left through) : left = [] := by
  have nodup := nodup.filter inside
  have met : ∀ goal, Relation.ReflTransGen (fun source target =>
      target ∈ graph.targetsInside inside source) start goal →
      goal ∉ left := by
    intro goal walk
    induction walk with
    | refl => exact fun mem => nodup.not_mem_erase (visits.sublist.mem mem)
    | @tail last goal _ edge ih =>
      by_cases first : last = start
      · exact visits.not_mem_left (nodup.erase start) (first ▸ edge)
      · have isLast := (mem_targetsInside.1 edge).1
        have unmet := (List.mem_erase_of_ne first).2 (List.mem_filter.2 ⟨all last isLast, isLast⟩)
        exact visits.target_not_mem_left (nodup.erase start)
          ((visits.mem_or_mem unmet).resolve_right ih) edge
  refine List.eq_nil_iff_forall_not_mem.2 fun goal mem => ?_
  have isGoal := (List.mem_filter.1 (List.mem_of_mem_erase (visits.sublist.mem mem))).2
  exact met goal (circle.walk_inside (circle.reaches start goal isStart isGoal) isStart isGoal) mem

theorem filter_through_eq_nil (visits : Visits targetsOf unseen looked left through)
    (empty : unseen.filter inside = []) : through.filter inside = [] ∧ left.filter inside = [] := by
  have unmet : ∀ node ∈ unseen, ¬ inside node = true := List.filter_eq_nil_iff.1 empty
  constructor
  · exact List.filter_eq_nil_iff.2 fun node mem => unmet node (visits.mem_unseen mem)
  · exact List.filter_eq_nil_iff.2 fun node mem => unmet node (visits.sublist.mem mem)

/-- A search that has not met a circle yet either leaves it so, or it enters it at some node and
goes all the way round it from there. -/
theorem entry (circle : graph.IsCircle inside)
    (visits : Visits graph.targets unseen looked left through)
    (nodup : unseen.Nodup) (all : ∀ node, inside node = true → node ∈ unseen) :
    (left.filter inside = unseen.filter inside ∧ through.filter inside = []) ∨
    ∃ first, inside first = true ∧ left.filter inside = [] ∧
    ∃ inner, through.filter inside = inner ++ [first] ∧
      Visits (graph.targetsInside inside) ((unseen.filter inside).erase first)
        (graph.targetsInside inside first) [] inner := by
  induction visits with
  | nil => exact .inl ⟨rfl, rfl⟩
  | skip _ _ ih => exact ih nodup all
  | @enter unseen rest between left inner outer target new visit later below behind =>
    rw [List.filter_append]
    by_cases here : inside target = true
    · have round := visit.around circle fun next edge => circle.inside_or_apart here edge
      rw [← List.erase_filter, ← targetsInside_of_inside here] at round
      have empty : between.filter inside = [] := round.none_left circle nodup all here
      obtain ⟨nothing, nobody⟩ := later.filter_through_eq_nil empty
      rw [empty] at round
      refine .inr ⟨target, here, nobody, inner.filter inside, ?_, round⟩
      rw [List.filter_cons_of_pos here, nothing]
    · have absent : target ∉ unseen.filter inside := fun mem => here (List.mem_filter.1 mem).2
      have same : (unseen.erase target).filter inside = unseen.filter inside := by
        rw [← List.erase_filter, List.erase_of_not_mem absent]
      have still : ∀ node, inside node = true → node ∈ unseen.erase target := by
        intro node isNode
        refine (List.mem_erase_of_ne ?_).2 (all node isNode)
        rintro rfl
        exact here isNode
      rw [List.filter_cons_of_neg here]
      rcases below (nodup.erase target) still with ⟨untouched, nothing⟩ | ⟨first,
        isFirst, empty, round⟩
      · rw [same] at untouched
        have left : ∀ node, inside node = true → node ∈ between := by
          intro node isNode
          have unmet : node ∈ between.filter inside :=
            untouched ▸ List.mem_filter.2 ⟨all node isNode, isNode⟩
          exact (List.mem_filter.1 unmet).1
        rw [nothing, List.nil_append, ← untouched]
        exact behind ((nodup.erase target).sublist visit.sublist) left
      · obtain ⟨nothing, nobody⟩ := later.filter_through_eq_nil empty
        rw [same] at round
        rw [nothing, List.append_nil]
        exact .inr ⟨first, isFirst, nobody, round⟩

end Visits

/-! ## Circles in the order of a graph -/

theorem not_before_last {list : List String} {last other : String}
    (nodup : (list ++ [last]).Nodup) : ¬ Before (list ++ [last]) last other := by
  intro before
  have mem : other ∈ list ++ [last] := by
    obtain ⟨front, back, whole, -⟩ := before
    rw [whole]
    simp
  have absent : last ∉ list :=
    fun again => List.disjoint_of_nodup_append nodup again (List.mem_singleton_self last)
  have earlier := before.idxOf_lt nodup
  have within := List.idxOf_lt_length_of_mem mem
  rw [List.idxOf_append_of_notMem absent, List.idxOf_cons_self] at earlier
  rw [List.length_append, List.length_singleton] at within
  omega

theorem before_filter_iff {list : List String} {first second : String}
    (isFirst : inside first = true) (isSecond : inside second = true) :
    Before (list.filter inside) first second ↔ Before list first second := by
  constructor
  · exact fun before => before.mono List.filter_sublist
  · intro before
    have both := (before_iff_sublist.1 before).filter inside
    rw [List.filter_cons_of_pos isFirst, List.filter_cons_of_pos isSecond, List.filter_nil] at both
    exact before_iff_sublist.2 both

namespace IsCircle

/-- The nodes of a circle stand in the order of the graph as a search goes round the circle from its
entry, which comes last. -/
theorem exists_entry (circle : graph.IsCircle inside) (closed : graph.IsClosed)
    (here : inside node = true) :
    ∃ first inner, inside first = true ∧ graph.order.filter inside = inner ++ [first] ∧
      Visits (graph.targetsInside inside) ((graph.nodes.filter inside).erase first)
        (graph.targetsInside inside first) [] inner := by
  rcases (visits_order closed.nodup).entry circle closed.nodup circle.node_mem with ⟨absent,
    -⟩ | ⟨first, isFirst, -, inner, round⟩
  · have mem : node ∈ graph.nodes.filter inside :=
      List.mem_filter.2 ⟨circle.node_mem node here, here⟩
    rw [← absent] at mem
    exact absurd mem List.not_mem_nil
  · exact ⟨first, inner, isFirst, round⟩

/-- Each node of a circle but the last one is a target of one that comes later. -/
theorem exists_parent (circle : graph.IsCircle inside) (closed : graph.IsClosed)
    (here : inside node = true) (notLast : (graph.order.filter inside).getLast? ≠ some node) :
    ∃ parent, inside parent = true ∧ graph.Edge parent node ∧ Before graph.order node parent := by
  obtain ⟨first, inner, isFirst, whole, round⟩ := circle.exists_entry closed here
  rw [whole, List.getLast?_concat] at notLast
  have mem : node ∈ inner ++ [first] := by
    rw [← whole]
    exact List.mem_filter.2 ⟨(order_perm closed).mem_iff.2 (circle.node_mem node here), here⟩
  have mem : node ∈ inner := by
    rcases List.mem_append.1 mem with mem | mem
    · exact mem
    · exact absurd (congrArg some (List.mem_singleton.1 mem).symm) notLast
  rcases round.looked_or_parent mem with edge | ⟨parent, edge, before⟩
  · obtain ⟨-, -, edge⟩ := mem_targetsInside.1 edge
    exact ⟨first, isFirst, edge,
      (before_filter_iff here isFirst).1 (whole ▸ before_append_singleton mem)⟩
  · obtain ⟨isParent, -, edge⟩ := mem_targetsInside.1 edge
    exact ⟨parent, isParent, edge, (before_filter_iff here isParent).1 (whole ▸ before.append _)⟩

/-- Two graphs with the same edges on a circle have its nodes in the same order if they have the
same one last. -/
theorem order_eq (circle : graph.IsCircle inside) (closed : graph.IsClosed)
    (circle' : other.IsCircle inside) (closed' : other.IsClosed) (nodes : graph.nodes = other.nodes)
    (edges : graph.targetsInside inside = other.targetsInside inside) (here : inside node = true)
    (last : (graph.order.filter inside).getLast? = (other.order.filter inside).getLast?) :
    graph.order.filter inside = other.order.filter inside := by
  obtain ⟨first, inner, -, whole, round⟩ := circle.exists_entry closed here
  obtain ⟨first', inner', -, whole', round'⟩ := circle'.exists_entry closed' here
  rw [whole, whole', List.getLast?_concat, List.getLast?_concat] at last
  obtain rfl := Option.some.inj last
  rw [← nodes, ← edges] at round'
  rw [whole, whole', (round.unique round').2]

end IsCircle
end Scaffold.Graph
