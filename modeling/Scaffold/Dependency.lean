import Scaffold.Schema

/-!
# Dependencies between entities

An entity depends on the entities it belongs to and, where that closes no cycle, on the owners of
the tables its foreign keys refer to. `order` lists every entity after those it depends on, as far
as cycles allow, with the order of declaration deciding the rest; `cycles` lists the cycles of the
relations by which entities belong to others.
-/

namespace Scaffold
set_option autoImplicit false

/-- Each node with its targets, in order; the targets are nodes too. -/
abbrev Graph := List (String × List String)

namespace Graph

def nodes (graph : Graph) : List String := graph.map (·.1)

/-- The targets of a node. -/
def targets (graph : Graph) (node : String) : List String := (graph.lookup node).getD []

/-- The graph with one more edge, after the others of its source. -/
def addEdge (graph : Graph) (source target : String) : Graph :=
  graph.map fun entry => if entry.1 = source then (entry.1, entry.2 ++ [target]) else entry

/-- What a search for a walk has not met yet, and the stack of what it met but has not looked at:
each target not met yet goes from the first to the top of the second. -/
def meet : List String → List String → List String → List String × List String
  | [], unseen, stack => (unseen, stack)
  | target :: rest, unseen, stack =>
    if unseen.contains target then meet rest (unseen.filter (· != target)) (target :: stack)
    else meet rest unseen stack

/-- A target that is met counts once on the stack, where it counted twice among those not met. -/
theorem length_meet_le (targets unseen stack : List String) :
    2 * (meet targets unseen stack).1.length + (meet targets unseen stack).2.length ≤
      2 * unseen.length + stack.length := by
  induction targets generalizing unseen stack with
  | nil => exact Nat.le_refl _
  | cons target rest ih =>
    rw [meet]
    split
    · rename_i new
      have fewer : (unseen.filter (· != target)).length < unseen.length :=
        List.length_filter_lt_length_iff_exists.2 ⟨target, List.contains_iff_mem.1 new, by simp⟩
      have later := ih (unseen.filter (· != target)) (target :: stack)
      rw [List.length_cons] at later
      omega
    · exact ih unseen stack

/-- Whether the search comes to `goal`: it takes the last node met from the stack, and stops there
or meets its targets. -/
def seek (graph : Graph) (goal : String) (unseen : List String) : List String → Bool
  | [] => false
  | node :: stack =>
    node == goal ||
      seek graph goal (meet (graph.targets node) unseen stack).1
        (meet (graph.targets node) unseen stack).2
termination_by stack => 2 * unseen.length + stack.length
decreasing_by
  have later := length_meet_le (graph.targets node) unseen stack
  rw [List.length_cons]
  omega

/-- Whether a walk leads from `start` to `goal`; the empty walk counts. -/
def reaches (graph : Graph) (start goal : String) : Bool :=
  graph.seek goal (graph.nodes.filter (· != start)) [start]

/-- A depth-first search under way. -/
structure Search where
  /-- The nodes in progress, the last one first, each with the targets still to be looked at. -/
  path : List (String × List String) := []
  /-- The nodes not met yet, in the order of the graph. -/
  unseen : List String
  /-- The nodes that are through, in the order in which they came to be. -/
  done : List String := []
  /-- The cycles met. -/
  cycles : List (List String) := []

/-- Whether two walks visit the same nodes. -/
def sameNodes (a b : List String) : Bool := a.all b.contains && b.all a.contains

namespace Search

/-- The nodes in progress, the last one first. -/
def inProgress (search : Search) : List String := search.path.map (·.1)

/-- Goes on from a node that was not met before. -/
def enter (search : Search) (graph : Graph) (node : String) : Search :=
  { search with
    path := (node, graph.targets node) :: search.path
    unseen := search.unseen.erase node }

/-- Records the cycle that an edge back to a node in progress closes, unless one through the same
nodes is known. -/
def close (search : Search) (target : String) : Search :=
  let cycle := search.inProgress.reverse.dropWhile (· != target) ++ [target]
  if search.cycles.any (sameNodes cycle) then search
  else { search with cycles := search.cycles ++ [cycle] }

/-- Looks at a target of the last node in progress: one not met yet is entered, one in progress
closes a cycle, and one that is through is left alone. -/
def look (search : Search) (graph : Graph) (target : String) : Search :=
  if search.unseen.contains target then search.enter graph target
  else if search.inProgress.contains target then search.close target
  else search

/-- One step: the last node in progress looks at its next target, or is through when it has none
left; where no node is in progress, the search sets out from the next one that was not met. When all
nodes are through there is no further step. -/
def step (graph : Graph) (search : Search) : Option Search :=
  match search.path with
  | (node, []) :: path => some { search with path, done := search.done ++ [node] }
  | (node, target :: rest) :: path =>
    some ({ search with path := (node, rest) :: path }.look graph target)
  | [] => search.unseen.head?.map (search.enter graph)

/-- The sum of counts. Its zero is named, since there are several ways to find one. -/
def total (counts : List Nat) : Nat := @List.sum Nat instAddNat Zero.ofOfNat0 counts

/-- How many steps the nodes in progress still take. -/
def pending (search : Search) : Nat := total (search.path.map fun frame => frame.2.length + 1)

/-- How many steps are left: a node that was not met yet is entered, each of its targets is looked
at, and then it is through. -/
def remaining (graph : Graph) (search : Search) : Nat :=
  total (search.unseen.map fun node => (graph.targets node).length + 2) + search.pending

theorem remaining_enter (search : Search) (graph : Graph) {node : String}
    (h : node ∈ search.unseen) :
    (search.enter graph node).remaining graph + 1 = search.remaining graph := by
  have all := ((List.perm_cons_erase h).map fun node => (graph.targets node).length + 2).sum_nat
  rw [List.map_cons, List.sum_cons] at all
  simp only [remaining, enter, pending, total, List.map_cons, List.sum_cons]
  omega

theorem close_eq (search : Search) (target : String) :
    ∃ cycles, search.close target = { search with cycles } := by
  simp only [close]
  split
  · exact ⟨search.cycles, rfl⟩
  · exact ⟨_, rfl⟩

/-- Each step is one less to take. -/
theorem remaining_step {graph : Graph} {search next : Search} (h : search.step graph = some next) :
    next.remaining graph < search.remaining graph := by
  obtain ⟨path, unseen, done, cycles⟩ := search
  match path with
  | (node, []) :: path =>
    obtain rfl := Option.some.inj h
    simp [remaining, pending, total]
  | (node, target :: rest) :: path =>
    obtain rfl := Option.some.inj h
    have looked : Search.remaining graph ⟨(node, rest) :: path, unseen, done, cycles⟩ <
        Search.remaining graph ⟨(node, target :: rest) :: path, unseen, done, cycles⟩ := by
      simp [remaining, pending, total]
    simp only [look]
    split
    · rename_i new
      have entered :=
        remaining_enter ⟨(node, rest) :: path, unseen, done, cycles⟩ graph
          (List.contains_iff_mem.1 new)
      omega
    · split
      · obtain ⟨_, e⟩ := close_eq ⟨(node, rest) :: path, unseen, done, cycles⟩ target
        rw [e]
        exact looked
      · exact looked
  | [] =>
    match unseen with
    | [] => simp [step] at h
    | root :: unseen =>
      obtain rfl := Option.some.inj h
      have entered :=
        remaining_enter ⟨[], root :: unseen, done, cycles⟩ graph (List.mem_cons_self ..)
      omega

/-- Takes steps until none is left. -/
def run (graph : Graph) (search : Search) : Search :=
  match _h : search.step graph with
  | none => search
  | some next => next.run graph
termination_by search.remaining graph
decreasing_by exact remaining_step _h

end Search

/-- The depth-first search of a whole graph, from its nodes in order. -/
def search (graph : Graph) : Search := Search.run graph { unseen := graph.nodes }

/-- Every node after its targets, as far as cycles allow. -/
def order (graph : Graph) : List String := graph.search.done

/-- The cycles of a graph, each from a node back to that node, and each set of nodes once. -/
def cycles (graph : Graph) : List (List String) := graph.search.cycles

end Graph

namespace Schema

/-- Each entity with the other entities it belongs to. -/
def belongsToGraph (s : Schema) : Graph :=
  s.entities.entries.map fun (name, entity) =>
    (name, (entity.belongsToTargets.filter fun target => s.entities.has target &&
      target != name).eraseDups)

/-- The graph with an edge from an entity to the owner of a table it refers to, unless the owner is
unknown, the entity itself or a target already, or the edge would close a cycle. -/
def addForeign (tables : OrderedMap String) (graph : Graph) (entity table : String) : Graph :=
  match tables.get? table with
  | none => graph
  | some owner =>
    if owner == entity || (graph.targets entity).contains owner ||
      graph.reaches owner entity then graph
    else graph.addEdge entity owner

/-- Each entity with the entities it depends on. -/
def dependencyGraph (s : Schema) : Graph :=
  s.entities.entries.foldl (fun graph (name, entity) =>
    (entity.fields.values.filterMap Field.foreignTable?).foldl
      (fun graph table => addForeign s.tables graph name table) graph) s.belongsToGraph

/-- The entities in an order in which each comes after those it depends on, as far as cycles
allow. -/
def dependencyOrder (s : Schema) : List String := s.dependencyGraph.order

/-- The cycles of entities that belong to one another. -/
def dependencyCycles (s : Schema) : List (List String) := s.belongsToGraph.cycles

end Schema
end Scaffold
