import Mathlib.Data.List.Nodup
import Mathlib.Data.List.Perm.Basic
import Scaffold.Proofs.Dependency.Search

/-!
# Cycles of a graph

A depth-first search records the cycle that an edge back to a node in progress closes.
`Search.Reports` holds at every moment: an edge that was looked at leads to a node that is through
before its source, or a recorded cycle ends with it. Hence the edges with which the recorded cycles
end are those that the order of the same search breaks (`Graph.closes_iff`), and a graph without
recorded cycles has none at all (`Graph.cycles_eq_nil_iff`).
-/

namespace Scaffold
set_option autoImplicit false

/-! ## One before the other -/

theorem before_iff_sublist {list : List String} {first second : String} :
    Before list first second ↔ [first, second].Sublist list := by
  constructor
  · rintro ⟨front, back, rfl, mem⟩
    have second : [second].Sublist (second :: back) :=
      List.singleton_sublist.2 (List.mem_cons_self ..)
    exact (List.singleton_sublist.2 mem).append second
  · intro both
    obtain ⟨front, rest, rfl, mem, both⟩ := List.cons_sublist_iff.1 both
    obtain ⟨middle, back, rfl⟩ := List.append_of_mem (List.singleton_sublist.1 both)
    exact ⟨front ++ middle, back, by simp, List.mem_append_left _ mem⟩

theorem before_append {front back : List String} {first second : String} (h : first ∈ front)
    (h' : second ∈ back) : Before (front ++ back) first second :=
  before_iff_sublist.2 ((List.singleton_sublist.2 h).append (List.singleton_sublist.2 h'))

theorem Before.mono {list longer : List String} {first second : String}
    (h : Before list first second) (sub : list.Sublist longer) : Before longer first second :=
  before_iff_sublist.2 ((before_iff_sublist.1 h).trans sub)

theorem Before.idxOf_lt {list : List String} {first second : String} (h : Before list first second)
    (nodup : list.Nodup) : list.idxOf first < list.idxOf second := by
  obtain ⟨front, back, rfl, mem⟩ := h
  have absent : second ∉ front := by
    intro again
    exact List.disjoint_of_nodup_append nodup again (List.mem_cons_self ..)
  rw [List.idxOf_append_of_mem mem, List.idxOf_append_of_notMem absent, List.idxOf_cons_self]
  exact List.idxOf_lt_length_of_mem mem

namespace Graph

variable {graph : Graph} {cycle known : List String} {node target : String}

/-- An order in which every target comes first leaves no room for a closed walk. -/
theorem acyclic_of_before {list : List String} (nodup : list.Nodup)
    (respects : ∀ node target, graph.Edge node target → Before list target node) :
    ∀ node, ¬ Relation.TransGen graph.Edge node node := by
  have earlier :
      ∀ node goal, Relation.TransGen graph.Edge node goal → list.idxOf goal < list.idxOf node := by
    intro node goal walk
    induction walk with
    | single edge => exact (respects _ _ edge).idxOf_lt nodup
    | tail _ edge ih => exact ((respects _ _ edge).idxOf_lt nodup).trans ih
  intro node walk
  exact lt_irrefl _ (earlier node node walk)

/-- Every walk around a cycle has an edge that an order breaks, since its nodes cannot come earlier
and earlier all the way. -/
theorem exists_broken {list walk : List String} (nodup : list.Nodup)
    (isWalk : (node :: walk).IsChain graph.Edge) (around : walk.getLast? = some node) :
    ∃ source next, [source, next] <:+: node :: walk ∧ graph.Edge source next ∧
    ¬ Before list next source := by
  by_contra unbroken
  push Not at unbroken
  have falling : (node :: walk).IsChain fun source next => list.idxOf next < list.idxOf source := by
    rw [List.isChain_iff_forall_rel_of_append_cons_cons] at isWalk ⊢
    intro source next front back split
    have edge : graph.Edge source next := isWalk split
    have inside : [source, next] <:+: node :: walk := ⟨front, back, by simp [split]⟩
    exact (unbroken source next inside edge).idxOf_lt nodup
  have last : node ∈ walk := List.mem_of_getLast? around
  have trans : IsTrans String fun source next => list.idxOf next < list.idxOf source :=
    ⟨fun _ _ _ h h' => h'.trans h⟩
  exact lt_irrefl _ (List.rel_of_pairwise_cons (List.isChain_iff_pairwise.1 falling) last)

/-! ## Cycles -/

/-- No node is a target of its own. -/
def IsLoopless (graph : Graph) : Prop := ∀ node, ¬ graph.Edge node node

/-- A walk along edges from a node back to it, through two nodes or more and none of them twice. -/
structure IsCycle (graph : Graph) (cycle : List String) : Prop where
  walk : cycle.IsChain graph.Edge
  closed : cycle.head? = cycle.getLast?
  nodup : cycle.dropLast.Nodup
  several : 2 ≤ cycle.dropLast.length

/-- The node at which a cycle is closed stands at both ends. -/
theorem IsCycle.exists_eq (h : graph.IsCycle cycle) :
    ∃ first inner last, cycle = first :: (inner ++ [last, first]) := by
  obtain ⟨-, closed, -, several⟩ := h
  rcases List.eq_nil_or_concat' cycle with rfl | ⟨front, again, rfl⟩
  · exact absurd several (by simp)
  · rw [List.dropLast_concat] at several
    match front, several with
    | first :: rest, several =>
      rw [List.getLast?_concat, List.cons_append, List.head?_cons] at closed
      obtain rfl := Option.some.inj closed
      rcases List.eq_nil_or_concat' rest with rfl | ⟨inner, last, rfl⟩
      · exact absurd several (by simp)
      · exact ⟨first, inner, last, by simp⟩

theorem dropLast_closed (first last : String) (inner : List String) :
    (first :: (inner ++ [last, first])).dropLast = first :: (inner ++ [last]) := by
  have split : first :: (inner ++ [last, first]) = (first :: (inner ++ [last])) ++ [first] := by
    simp
  rw [split, List.dropLast_concat]

theorem IsCycle.mem_dropLast (h : graph.IsCycle cycle) : node ∈ cycle.dropLast ↔ node ∈ cycle := by
  obtain ⟨first, inner, last, rfl⟩ := h.exists_eq
  rw [dropLast_closed]
  simp
  tauto

/-- A cycle is told by its nodes up to the last. -/
theorem IsCycle.eq_of_dropLast (h : graph.IsCycle cycle) (other : graph.IsCycle known)
    (same : cycle.dropLast = known.dropLast) : cycle = known := by
  obtain ⟨first, inner, last, rfl⟩ := h.exists_eq
  obtain ⟨first', inner', last', rfl⟩ := other.exists_eq
  rw [dropLast_closed, dropLast_closed] at same
  obtain ⟨rfl, rest⟩ := List.cons.inj same
  have rest := congrArg (· ++ [first]) rest
  simp only [List.append_assoc, List.cons_append, List.nil_append] at rest
  rw [rest]

/-- A cycle leads from its first node back to it. -/
theorem IsCycle.exists_transGen (h : graph.IsCycle cycle) :
    ∃ node, Relation.TransGen graph.Edge node node := by
  obtain ⟨first, inner, last, rfl⟩ := h.exists_eq
  have walk := h.walk
  rw [← List.cons_append, List.isChain_append_cons_cons] at walk
  obtain ⟨walk, edge, -⟩ := walk
  have reached : graph.Reaches first last := by
    apply List.relationReflTransGen_of_exists_isChain_cons (inner ++ [last]) walk
    simp
  exact ⟨first, .tail' reached edge⟩

/-- From the last edge on, a cycle goes back along its nodes: first the source of that edge, at the
end its target. -/
theorem IsCycle.exists_reverse (h : graph.IsCycle cycle) (ends : [node, target] <:+ cycle) :
    ∃ between, cycle.dropLast.reverse = node :: (between ++ [target]) := by
  obtain ⟨first, inner, last, rfl⟩ := h.exists_eq
  obtain ⟨front, whole⟩ := ends
  rw [← List.cons_append] at whole
  obtain ⟨rfl, last⟩ := List.cons.inj (List.append_inj_right' whole rfl)
  obtain rfl := (List.cons.inj last).1
  exact ⟨inner.reverse, by simp [dropLast_closed]⟩

/-- Of a list of distinct nodes, a part is told by the nodes in it. -/
theorem eq_of_sublist {list part other : List String} (nodup : list.Nodup) (sub : part.Sublist list)
    (sub' : other.Sublist list) (same : ∀ node, node ∈ part ↔ node ∈ other) : part = other := by
  have filtered {part : List String} (sub : part.Sublist list) : list.filter (· ∈ part) = part := by
    have whole : part.filter (· ∈ part) = part :=
      List.filter_eq_self.2 fun node mem => decide_eq_true mem
    have kept : (part.filter (· ∈ part)).Sublist (list.filter (· ∈ part)) := sub.filter _
    rw [whole] at kept
    have inside : list.filter (· ∈ part) ⊆ part := by
      intro node mem
      simpa using (List.mem_filter.1 mem).2
    exact (kept.eq_of_length_le (List.subperm_of_subset (nodup.filter _) inside).length_le).symm
  rw [← filtered sub, ← filtered sub']
  simp only [same]

theorem sameNodes_iff : sameNodes cycle known = true ↔ ∀ node, node ∈ cycle ↔ node ∈ known := by
  simp only [sameNodes, Bool.and_eq_true, List.all_eq_true, List.contains_iff_mem]
  exact ⟨fun both node => ⟨both.1 node, both.2 node⟩, fun same =>
    ⟨fun node => (same node).1, fun node => (same node).2⟩⟩

/-! ## What a search has recorded -/

namespace Search

variable {search next : Search}

/-- The nodes that were met, in the order in which they are through or will be. -/
def timeline (search : Search) : List String := search.done ++ search.inProgress

/-- An edge that was looked at: its target is through before its source, or a recorded cycle ends
with it. -/
def Settles (search : Search) (node target : String) : Prop :=
  Before search.timeline target node ∨ ∃ cycle ∈ search.cycles, [node, target] <:+ cycle

/-- A later moment of a search: more nodes may have been met, each after those that it will be
through after, and more cycles recorded. -/
structure Later (search next : Search) : Prop where
  timeline : search.timeline.Sublist next.timeline
  cycles : search.cycles ⊆ next.cycles

theorem Later.trans {last : Search} (h : Later search next) (h' : Later next last) :
    Later search last where
  timeline := h.timeline.trans h'.timeline
  cycles := List.Subset.trans h.cycles h'.cycles

theorem Settles.mono (h : search.Settles node target) (later : Later search next) :
    next.Settles node target := by
  rcases h with before | ⟨cycle, mem, ends⟩
  · exact .inl (before.mono later.timeline)
  · exact .inr ⟨cycle, later.cycles mem, ends⟩

/-- The recorded cycles are cycles through different nodes, and those of each are through in the
order in which it goes back. -/
structure Records (graph : Graph) (search : Search) : Prop where
  cycles : ∀ cycle ∈ search.cycles, graph.IsCycle cycle
  placed : ∀ cycle ∈ search.cycles, cycle.dropLast.reverse.Sublist search.timeline
  apart : search.cycles.Pairwise fun known cycle => sameNodes cycle known = false

/-- What holds at every moment: every edge that was looked at is settled. -/
structure Reports (graph : Graph) (search : Search) : Prop extends Records graph search where
  looked : ∀ frame ∈ search.path, ∀ target, graph.Edge frame.1 target → target ∈ frame.2 ∨
    search.Settles frame.1 target
  through : ∀ node ∈ search.done, ∀ target, graph.Edge node target → search.Settles node target

theorem Reports.initial (graph : Graph) : Reports graph { unseen := graph.nodes } where
  cycles := by simp
  placed := by simp
  apart := .nil
  looked := by simp
  through := by simp

theorem Records.later (records : Records graph search) (later : Later search next)
    (same : next.cycles = search.cycles) : Records graph next where
  cycles cycle mem := records.cycles cycle (same ▸ mem)
  placed cycle mem := (records.placed cycle (same ▸ mem)).trans later.timeline
  apart := same ▸ records.apart

theorem later_enter (search : Search) (graph : Graph) (node : String) :
    Later search (search.enter graph node) where
  timeline := by
    have entered : search.inProgress.Sublist (search.enter graph node).inProgress :=
      List.sublist_cons_self ..
    exact (List.Sublist.refl search.done).append entered
  cycles _ mem := mem

theorem Reports.enter (reports : Reports graph search) (node : String) :
    Reports graph (search.enter graph node) := by
  have later := later_enter search graph node
  refine ⟨reports.toRecords.later later rfl, ?_, ?_⟩
  · intro frame mem target edge
    rcases List.mem_cons.1 mem with rfl | mem
    · exact .inl edge
    · exact (reports.looked frame mem target edge).imp_right (·.mono later)
  · intro node mem target edge
    exact (reports.through node mem target edge).mono later

/-- The last node in progress is through: by then all its targets were looked at. -/
theorem Reports.finish {outer : List (String × List String)} (reports : Reports graph search)
    (here : search.path = (node, []) :: outer) :
    Reports graph { search with path := outer, done := search.done ++ [node] } := by
  have same : Search.timeline { search with path := outer, done := search.done ++ [node] } =
      search.timeline := by
    simp [timeline, inProgress, here]
  have later : Later search { search with path := outer, done := search.done ++ [node] } :=
    ⟨same ▸ List.Sublist.refl _, fun _ mem => mem⟩
  refine ⟨reports.toRecords.later later rfl, ?_, ?_⟩
  · intro frame mem target edge
    exact (reports.looked frame (by simp [here, mem]) target edge).imp_right (·.mono later)
  · intro earlier mem target edge
    rcases List.mem_append.1 mem with mem | mem
    · exact (reports.through earlier mem target edge).mono later
    · obtain rfl := List.mem_singleton.1 mem
      rcases reports.looked (earlier, []) (by simp [here]) target edge with absent | settled
      · exact absurd absent List.not_mem_nil
      · exact settled.mono later

/-- The last node in progress has settled a target, and at most a node whose targets are all to be
looked at has come on top of it. -/
theorem Reports.take {rest : List String} {outer : List (String × List String)}
    (reports : Reports graph search) (here : search.path = (node, target :: rest) :: outer)
    (later : Later search next) (records : Records graph next)
    (settled : next.Settles node target) (done : next.done = search.done)
    (path : ∀ frame ∈ next.path, frame.2 = graph.targets frame.1 ∨ frame ∈ (node, rest) :: outer) :
    Reports graph next := by
  refine ⟨records, ?_, ?_⟩
  · intro frame mem other edge
    rcases path frame mem with fresh | mem
    · exact .inl (fresh ▸ edge)
    rcases List.mem_cons.1 mem with rfl | mem
    · rcases reports.looked (node, target :: rest) (by simp [here]) other edge with pending | before
      · rcases List.mem_cons.1 pending with rfl | pending
        · exact .inr settled
        · exact .inl pending
      · exact .inr (before.mono later)
    · exact (reports.looked frame (by simp [here, mem]) other edge).imp_right (·.mono later)
  · intro earlier mem other edge
    exact (reports.through earlier (done ▸ mem) other edge).mono later

/-- The cycle that an edge from the last node in progress back to another one closes. -/
def closing (search : Search) (target : String) : List String :=
  search.inProgress.reverse.dropWhile (· != target) ++ [target]

/-- The nodes in progress from the target on, and the target again. -/
theorem closing_eq {between outer : List String} (nodup : search.inProgress.Nodup)
    (here : search.inProgress = node :: (between ++ target :: outer)) :
    search.closing target = target :: (between.reverse ++ [node, target]) := by
  have absent : ∀ other ∈ outer.reverse, (other != target) = true := by
    intro other mem
    rw [here, List.nodup_cons, List.nodup_append, List.nodup_cons] at nodup
    refine bne_iff_ne.2 ?_
    rintro rfl
    exact nodup.2.2.1.1 (List.mem_reverse.1 mem)
  rw [closing, here, List.reverse_cons, List.reverse_append, List.reverse_cons, List.append_assoc,
    List.append_assoc, List.dropWhile_append_of_pos absent]
  simp

theorem isCycle_closing {between outer : List String} (nodup : search.inProgress.Nodup)
    (walk : search.inProgress.IsChain fun inner outer => graph.Edge outer inner)
    (here : search.inProgress = node :: (between ++ target :: outer))
    (edge : graph.Edge node target) : graph.IsCycle (search.closing target) := by
  rw [closing_eq nodup here]
  refine ⟨?_, ?_, ?_, ?_⟩
  · have outwards :
        (node :: between ++ [target]).IsChain fun inner outer => graph.Edge outer inner := by
      have whole :
        node :: (between ++ target :: outer) = (node :: between ++ [target]) ++ outer := by simp
      rw [here, whole] at walk
      exact walk.left_of_append
    have inwards := List.isChain_reverse.2 outwards
    have split : target :: (between.reverse ++ [node, target]) = (target :: between.reverse) ++
      node :: target :: [] := by simp
    rw [split, List.isChain_append_cons_cons]
    exact ⟨by simpa using inwards, edge, .singleton target⟩
  · simp [List.getLast?_cons]
  · rw [dropLast_closed, ← List.nodup_reverse]
    have part : (target :: (between.reverse ++ [node])).reverse.Sublist search.inProgress := by
      rw [here]
      simp
    exact part.nodup nodup
  · simp [dropLast_closed]

theorem placed_closing {between outer : List String} (nodup : search.inProgress.Nodup)
    (here : search.inProgress = node :: (between ++ target :: outer)) :
    (search.closing target).dropLast.reverse.Sublist search.timeline := by
  have part : (search.closing target).dropLast.reverse.Sublist search.inProgress := by
    rw [closing_eq nodup here, dropLast_closed, here]
    simp
  exact part.trans (List.sublist_append_right ..)

theorem close_eq_closing (search : Search) (target : String) :
    search.close target = if search.cycles.any (sameNodes (search.closing target)) then search
      else { search with cycles := search.cycles ++ [search.closing target] } := rfl

/-- The cycle that an edge closes is among those recorded afterwards. One with the same nodes that
was recorded before is no other cycle: both go back along the nodes that were met. -/
theorem Records.mem_close (records : Records graph search) (nodup : search.timeline.Nodup)
    (isCycle : graph.IsCycle (search.closing target))
    (placed : (search.closing target).dropLast.reverse.Sublist search.timeline) :
    search.closing target ∈ (search.close target).cycles := by
  rw [close_eq_closing]
  split
  · rename_i again
    obtain ⟨known, mem, same⟩ := List.any_eq_true.1 again
    have isKnown := records.cycles known mem
    have alike : (search.closing target).dropLast.reverse = known.dropLast.reverse := by
      apply eq_of_sublist nodup placed (records.placed known mem)
      intro node
      rw [List.mem_reverse, List.mem_reverse, isCycle.mem_dropLast, isKnown.mem_dropLast]
      exact sameNodes_iff.1 same node
    rw [isCycle.eq_of_dropLast isKnown (List.reverse_injective alike)]
    exact mem
  · exact List.mem_append_right _ (List.mem_singleton_self _)

theorem Records.close (records : Records graph search)
    (isCycle : graph.IsCycle (search.closing target))
    (placed : (search.closing target).dropLast.reverse.Sublist search.timeline) :
    Records graph (search.close target) := by
  rw [close_eq_closing]
  split
  · exact records
  · rename_i new
    refine ⟨?_, ?_, ?_⟩
    · intro cycle mem
      rcases List.mem_append.1 mem with mem | mem
      · exact records.cycles cycle mem
      · exact List.mem_singleton.1 mem ▸ isCycle
    · intro cycle mem
      rcases List.mem_append.1 mem with mem | mem
      · exact records.placed cycle mem
      · exact List.mem_singleton.1 mem ▸ placed
    · refine List.pairwise_append.2 ⟨records.apart, List.pairwise_singleton _ _, ?_⟩
      intro known isKnown cycle mem
      obtain rfl := List.mem_singleton.1 mem
      simp only [List.any_eq_true, not_exists, not_and, Bool.not_eq_true] at new
      exact new known isKnown

theorem later_close (search : Search) (target : String) : Later search (search.close target) := by
  rw [close_eq_closing]
  split
  · exact ⟨.refl _, fun _ mem => mem⟩
  · exact ⟨.refl _, List.subset_append_left ..⟩

/-- An edge back to a node in progress, other than the last, is settled by the cycle that it
closes. -/
theorem Records.settles_close (records : Records graph search) (nodup : search.timeline.Nodup)
    (walk : search.inProgress.IsChain fun inner outer => graph.Edge outer inner)
    (last : search.inProgress.head? = some node) (isOpen : target ∈ search.inProgress)
    (apart : target ≠ node) (edge : graph.Edge node target) :
    Records graph (search.close target) ∧ (search.close target).Settles node target := by
  have distinct : search.inProgress.Nodup := nodup.sublist (List.sublist_append_right ..)
  obtain ⟨more, here⟩ := List.head?_eq_some_iff.1 last
  have mem : target ∈ more := by
    rw [here] at isOpen
    exact (List.mem_cons.1 isOpen).resolve_left apart
  obtain ⟨between, outer, rfl⟩ := List.append_of_mem mem
  have isCycle := isCycle_closing distinct walk here edge
  have placed := placed_closing distinct here
  refine ⟨records.close isCycle placed,
    .inr ⟨search.closing target, records.mem_close nodup isCycle placed, ?_⟩⟩
  rw [closing_eq distinct here]
  exact ⟨target :: between.reverse, by simp⟩

/-- The last node in progress takes its next target. -/
theorem Reports.look {rest : List String} {outer : List (String × List String)}
    (closed : graph.IsClosed) (loopless : graph.IsLoopless) (sound : Sound graph search)
    (reports : Reports graph search)
    (here : search.path = (node, target :: rest) :: outer) :
    Reports graph ({ search with path := (node, rest) :: outer }.look graph target) := by
  have edge : graph.Edge node target :=
    sound.targets (node, target :: rest) (by simp [here]) target (List.mem_cons_self ..)
  have nodup : search.timeline.Nodup := by
    have nodup := sound.nodup closed
    rw [List.append_assoc] at nodup
    exact List.nodup_append_comm.1 (List.nodup_append.1 nodup).2.1
  -- which targets a node still has to look at does not show in the order of the nodes
  obtain ⟨moved, isMoved⟩ :
    ∃ moved : Search, moved = { search with path := (node, rest) :: outer } := ⟨_, rfl⟩
  have path : moved.path = (node, rest) :: outer := by rw [isMoved]
  have done : moved.done = search.done := by rw [isMoved]
  have same : moved.inProgress = search.inProgress := by
    rw [inProgress, inProgress, path, here]; rfl
  have time : moved.timeline = search.timeline := by rw [timeline, timeline, done, same]
  have last : moved.inProgress.head? = some node := by rw [inProgress, path]; rfl
  have later : Later search moved := ⟨time ▸ .refl _, isMoved ▸ fun _ mem => mem⟩
  have records : Records graph moved := reports.toRecords.later later (by rw [isMoved])
  rw [← isMoved]
  unfold Search.look
  split
  · have onward := later_enter moved graph target
    have met :
        (moved.enter graph target).timeline = (moved.done ++ [target]) ++ moved.inProgress := by
      simp [timeline, Search.enter, inProgress]
    have before : Before (moved.enter graph target).timeline target node := by
      rw [met]
      exact before_append (List.mem_append_right _ (List.mem_singleton_self _))
        (List.mem_of_mem_head? last)
    refine reports.take here (later.trans onward) (records.later onward rfl) (.inl before) done ?_
    intro frame mem
    rcases List.mem_cons.1 mem with rfl | mem
    · exact .inl rfl
    · exact .inr (path ▸ mem)
  · rename_i seen
    split
    · rename_i isOpen
      have apart : target ≠ node := fun same => loopless node (same ▸ edge)
      obtain ⟨records, settled⟩ :=
        records.settles_close (time ▸ nodup) (same ▸ sound.walk) last
          (List.contains_iff_mem.1 isOpen) apart edge
      obtain ⟨cycles, closes⟩ := close_eq moved target
      refine reports.take here (later.trans (later_close moved target)) records settled
        (by rw [closes, done]) ?_
      intro frame mem
      rw [closes] at mem
      exact .inr (path ▸ mem)
    · rename_i shut
      have seen : target ∉ search.unseen := by
        intro unseen
        exact seen (List.contains_iff_mem.2 (by simpa [isMoved] using unseen))
      have through : target ∈ moved.done := by
        rcases sound.inProgress_or_done (closed.target_mem _ _ edge) seen with isOpen | through
        · exact absurd (List.contains_iff_mem.2 (same ▸ isOpen)) shut
        · exact done ▸ through
      refine reports.take here later records
        (.inl (before_append through (List.mem_of_mem_head? last))) done ?_
      intro frame mem
      exact .inr (path ▸ mem)

/-- One step keeps every edge settled that was looked at. -/
theorem Reports.step (closed : graph.IsClosed) (loopless : graph.IsLoopless)
    (sound : Sound graph search) (reports : Reports graph search)
    (h : search.step graph = some next) : Reports graph next := by
  match here : search.path with
  | (node, []) :: path =>
    simp only [Search.step, here, Option.some.injEq] at h
    exact h ▸ reports.finish here
  | (node, target :: rest) :: path =>
    simp only [Search.step, here, Option.some.injEq] at h
    exact h ▸ reports.look closed loopless sound here
  | [] =>
    simp only [Search.step, here, Option.map_eq_some_iff] at h
    obtain ⟨root, -, rfl⟩ := h
    exact reports.enter root

end Search

/-! ## The recorded cycles -/

/-- A search of a whole graph has settled every edge. -/
theorem reports_search (closed : graph.IsClosed) (loopless : graph.IsLoopless) :
    Search.Reports graph graph.search ∧ graph.search.timeline = graph.order := by
  have step : ∀ search next : Search, Search.Sound graph search ∧ Search.Reports graph search →
      search.step graph = some next → Search.Sound graph next ∧ Search.Reports graph next := by
    intro search next both goesOn
    exact ⟨both.1.step closed goesOn, both.2.step closed loopless both.1 goesOn⟩
  obtain ⟨⟨-, reports⟩, last⟩ := Search.run_of_step step ⟨.initial graph, .initial graph⟩
  have path : graph.search.path = [] := (Search.exhausted last).1
  refine ⟨reports, ?_⟩
  rw [Search.timeline, Search.inProgress, path]
  simp [order]

/-- Each recorded cycle is one. -/
theorem isCycle_of_mem_cycles (closed : graph.IsClosed) (loopless : graph.IsLoopless)
    (mem : cycle ∈ graph.cycles) : graph.IsCycle cycle :=
  (reports_search closed loopless).1.cycles cycle mem

/-- No two of them go through the same nodes. -/
theorem pairwise_cycles (closed : graph.IsClosed) (loopless : graph.IsLoopless) :
    graph.cycles.Pairwise fun known cycle => ¬ ∀ node, node ∈ known ↔ node ∈ cycle := by
  refine (reports_search closed loopless).1.apart.imp ?_
  intro known cycle apart same
  rw [sameNodes_iff.2 fun node => (same node).symm] at apart
  exact Bool.noConfusion apart

/-- The edges with which the recorded cycles end are those that the order of the same search
breaks. -/
theorem closes_iff (closed : graph.IsClosed) (loopless : graph.IsLoopless)
    (edge : graph.Edge node target) : (∃ cycle ∈ graph.cycles, [node, target] <:+ cycle) ↔
    ¬ Before graph.order target node := by
  obtain ⟨reports, whole⟩ := reports_search closed loopless
  have isNode : node ∈ graph.order := (order_perm closed).mem_iff.2 (source_mem edge)
  constructor
  · rintro ⟨cycle, mem, ends⟩ before
    obtain ⟨between, back⟩ := (reports.cycles cycle mem).exists_reverse ends
    have placed := reports.placed cycle mem
    have nodup : graph.order.Nodup := (order_perm closed).nodup_iff.2 closed.nodup
    have other : Before graph.order node target := by
      rw [whole, back] at placed
      refine before_iff_sublist.2 (List.Sublist.trans ?_ placed)
      simp
    exact lt_asymm (before.idxOf_lt nodup) (other.idxOf_lt nodup)
  · intro broken
    have settled := reports.through node isNode target edge
    rw [Search.Settles, whole] at settled
    exact settled.resolve_left broken

/-- None is recorded exactly when no walk leads from a node back to it. -/
theorem cycles_eq_nil_iff (closed : graph.IsClosed) (loopless : graph.IsLoopless) :
    graph.cycles = [] ↔ ∀ node, ¬ Relation.TransGen graph.Edge node node := by
  constructor
  · intro absent
    refine acyclic_of_before ((order_perm closed).nodup_iff.2 closed.nodup)
      fun node target edge => ?_
    by_contra broken
    obtain ⟨cycle, mem, -⟩ := (closes_iff closed loopless edge).2 broken
    exact List.not_mem_nil (absent ▸ mem)
  · intro acyclic
    refine List.eq_nil_iff_forall_not_mem.2 fun cycle mem => ?_
    obtain ⟨node, walk⟩ := (isCycle_of_mem_cycles closed loopless mem).exists_transGen
    exact acyclic node walk

end Graph
end Scaffold
