import Scaffold.Proofs.Generation.Making

/-!
# What making files one after another leaves

A file that was made may be replaced by a later one of the same run: that is written at its path, or
its pattern finds it. `Run.MakesAll.isSome_contentAt_iff` says which files are left in the end. When
no file is replaced, all are left as they were rendered (`Run.MakesAll.delivered_of_pairwise`), and
when all are left, each at a path of its own, none is replaced (`Run.MakesAll.pairwise_of_left`).
-/

namespace Scaffold
set_option autoImplicit false

/-- A file that is made, with the path at which it is made. -/
structure Product where
  emission : Emission
  path : String

namespace Product

def names (product : Product) : List String := namesOf product.path

/-- Making a file replaces another one: it is written at its path, or it goes before that. -/
def Replaces (later earlier : Product) : Prop :=
  later.names = earlier.names ∨ later.emission.Drops earlier.names

end Product

namespace Emission

/-- Files with the paths at which they are made one after another. -/
def placed (now : Moment) : Nat → List Emission → List Product
  | _, [] => []
  | named, e :: rest => ⟨e, e.pathAt now named⟩ :: placed now (named + e.count) rest

variable {now : Moment} {named : Nat} {emissions : List Emission}

theorem emission_mem_of_placed {product : Product} (mem : product ∈ placed now named emissions) :
    product.emission ∈ emissions ∧ ∃ named, product.path = product.emission.pathAt now named := by
  induction emissions generalizing named with
  | nil => exact absurd mem List.not_mem_nil
  | cons e rest ih =>
    rcases List.mem_cons.1 mem with rfl | mem
    · exact ⟨List.mem_cons_self .., named, rfl⟩
    · obtain ⟨isIn, path⟩ := ih mem
      exact ⟨List.mem_cons_of_mem e isIn, path⟩

theorem exists_mem_placed {e : Emission} (mem : e ∈ emissions) :
    ∃ product ∈ placed now named emissions, product.emission = e := by
  induction emissions generalizing named with
  | nil => exact absurd mem List.not_mem_nil
  | cons first rest ih =>
    rcases List.mem_cons.1 mem with rfl | mem
    · exact ⟨_, List.mem_cons_self .., rfl⟩
    · obtain ⟨product, isIn, same⟩ := ih mem
      exact ⟨product, List.mem_cons_of_mem _ isIn, same⟩

/-- A file is made where its making touches the project. -/
theorem touched_pathAt (e : Emission) (now : Moment) (named : Nat) :
    e.Touched (namesOf (e.pathAt now named)) := by
  cases e with
  | whole kind path text metadata => rfl
  | merged kind path markers body fresh anchor indent => rfl
  | migration suffix text metadata => exact Run.prefix_migrationPath _ suffix

end Emission

namespace Run

/-- Files were made one after another. -/
inductive MakesAll : List Product → Run → Run → Prop where
  | nil (run : Run) : MakesAll [] run run
  | cons {product : Product} {rest : List Product} {before between after : Run}
      (made : Makes product.emission product.path before between)
      (others : MakesAll rest between after) : MakesAll (product :: rest) before after

variable {now : Moment} {run before after : Run} {products : List Product} {product : Product}
  {names : List String}

/-- A file of a run that makes files is made, whole or with the root of the project open. -/
theorem makes_emit {s : Schema} {e : Emission} (opened : run.project.IsOpen) (isMade : e.IsMade s)
    (named : namesOf (e.pathAt now run.migrations) ≠ [])
    (h : emit now .clean run e = (.ok (), after))
    (clean : isClean after.report = true) : Makes e (e.pathAt now run.migrations) run after := by
  cases isMade with
  | whole kind path text metadata page => exact makes_emitWhole named h clean
  | merged kind path markers body fresh anchor indent isPath =>
    exact makes_emitMerged opened named h clean
  | migration suffix text metadata isSuffix =>
    exact makes_emitMigration opened (Schema.exists_stem_of_mem_migrationSuffixes isSuffix) h clean

/-- After a file was made the root of the project is open. -/
theorem Makes.isOpen {e : Emission} {path : String} (made : Makes e path before after) :
    after.project.IsOpen := by
  obtain ⟨text, -, stands⟩ := made.given
  exact Project.isOpen_of_stands stands

/-- Files that are made without a failure are made one after another. -/
theorem makesAll_emitAll {s : Schema} {options : Options} {order : List String}
    {emissions : List Emission} (among : ∀ e ∈ emissions, e ∈ Emission.ofSchema s options order)
    (opened : run.project.IsOpen ∨ ∃ kind path text metadata,
      emissions.head? = some (.whole kind path text metadata))
    (h : emitAll now .clean emissions run = (.ok (), after)) (clean : isClean after.report = true) :
    MakesAll (Emission.placed now run.migrations emissions) run after := by
  induction emissions generalizing run with
  | nil =>
    obtain ⟨-, rfl⟩ := Prod.mk.inj h
    exact .nil run
  | cons e rest ih =>
    unfold emitAll at h
    cases one : emit now .clean run e with
    | mk outcome between =>
      rw [one] at h
      cases outcome with
      | error e => cases (Prod.mk.inj h).1
      | ok _ =>
        dsimp only at h
        have others : Changes now (fun _ => True) (fun _ => True) between
          (emitAll now .clean rest between).2 :=
          changes_emitAll (fun _ _ _ _ => trivial) fun _ _ _ _ => trivial
        rw [h] at others
        have soFar : isClean between.report = true := others.moved.report.clean clean
        have mem := among e (List.mem_cons_self ..)
        have named : namesOf (e.pathAt now run.migrations) ≠ [] := by
          obtain ⟨root, -, rest, names⟩ :=
            Emission.root_of_touched mem (e.touched_pathAt now run.migrations)
          rw [names]
          exact List.cons_ne_nil _ _
        have made : Makes e (e.pathAt now run.migrations) run between := by
          rcases opened with opened | ⟨kind, path, text, metadata, first⟩
          · exact makes_emit opened (Emission.isMade_of_mem mem) named one soFar
          · obtain rfl := Option.some.inj first
            exact makes_emitWhole named one soFar
        have rest := ih (fun e mem => among e (List.mem_cons_of_mem _ mem)) (.inl made.isOpen) h
        rw [made.named] at rest
        exact .cons made rest

namespace MakesAll

theorem split {front back : List Product} (h : MakesAll (front ++ back) before after) :
    ∃ between, MakesAll front before between ∧ MakesAll back between after := by
  induction front generalizing before with
  | nil => exact ⟨before, .nil before, h⟩
  | cons product rest ih =>
    cases h with
    | cons made others =>
      obtain ⟨between, first, second⟩ := ih others
      exact ⟨between, .cons made first, second⟩

/-- What making files touches. -/
theorem touches (h : MakesAll products before after) : Project.Touches
    (fun names => ∃ product ∈ products, product.names = names ∨
      product.emission.Drops names) before.project after.project := by
  induction h with
  | nil run => exact .refl _ run.project
  | @cons product rest before between after made others ih =>
    have first : Project.Touches (fun names => ∃ other ∈ product :: rest, other.names = names ∨
        other.emission.Drops names) before.project between.project :=
      made.touches.mono fun names touched =>
        ⟨product, List.mem_cons_self .., touched.imp_left Eq.symm⟩
    exact first.trans (ih.mono fun names ⟨other, mem, touched⟩ =>
      ⟨other, List.mem_cons_of_mem _ mem, touched⟩)

/-- Files that were reported stay so. -/
theorem files (h : MakesAll products before after) :
    before.report.files <+: after.report.files := by
  induction h with
  | nil run => exact List.prefix_rfl
  | cons made others ih =>
    obtain ⟨action, -, reported⟩ := made.reported
    rw [reported] at ih
    exact (List.prefix_append ..).trans ih

/-- A file that is not made is left as it was, or it goes. -/
theorem contentAt_cases (h : MakesAll products before after)
    (apart : ∀ product ∈ products, product.names ≠ names) :
    after.project.contentAt names = none ∨
    after.project.contentAt names = before.project.contentAt names := by
  induction h with
  | nil run => exact .inr rfl
  | @cons product rest before between after made others ih =>
    have here : names ≠ namesOf product.path := (apart product (List.mem_cons_self ..)).symm
    have later := ih fun other mem => apart other (List.mem_cons_of_mem _ mem)
    by_cases drops : product.emission.Drops names
    · rw [made.dropped names here drops] at later
      exact .inl (later.elim id id)
    · have kept := made.touches.contents names fun touched => touched.elim here drops
      rwa [kept] at later

/-- A file is left after files were made that is made and not found by the pattern of a later one,
or that was there and is found by none. -/
theorem isSome_contentAt_iff (h : MakesAll products before after) :
    (after.project.contentAt names).isSome = true ↔
    (∃ front product back, products = front ++ product :: back ∧ product.names = names ∧
      ∀ later ∈ back, ¬ later.emission.Drops names) ∨
      (before.project.contentAt names).isSome = true ∧ ∀ product ∈ products,
      ¬ product.emission.Drops names := by
  induction h with
  | nil run => simp
  | @cons product rest before between after made others ih =>
    have here : (between.project.contentAt names).isSome = true ↔ product.names = names ∨
        (before.project.contentAt names).isSome = true ∧ ¬ product.emission.Drops names := by
      by_cases own : product.names = names
      · subst own
        obtain ⟨text, -, stands⟩ := made.given
        have held : (between.project.contentAt product.names).isSome = true := by
          rw [Product.names, stands.contentAt]
          rfl
        exact iff_of_true held (.inl rfl)
      · have apart : names ≠ namesOf product.path := Ne.symm own
        by_cases drops : product.emission.Drops names
        · rw [made.dropped names apart drops]
          simp [own, drops]
        · rw [made.touches.contents names fun touched => touched.elim apart drops]
          simp [own, drops]
    rw [ih, here]
    constructor
    · rintro (⟨front, later, back, rfl, own, spared⟩ | ⟨own | ⟨held, spared⟩, others⟩)
      · exact .inl ⟨product :: front, later, back, rfl, own, spared⟩
      · exact .inl ⟨[], product, rest, rfl, own, others⟩
      · exact .inr ⟨held, List.forall_mem_cons.2 ⟨spared, others⟩⟩
    · rintro (⟨front, later, back, split, own, spared⟩ | ⟨held, spared⟩)
      · cases front with
        | nil =>
          obtain ⟨rfl, rfl⟩ := List.cons.inj split
          exact .inr ⟨.inl own, spared⟩
        | cons first front =>
          obtain ⟨rfl, rfl⟩ := List.cons.inj split
          exact .inl ⟨front, later, back, rfl, own, spared⟩
      · obtain ⟨spared, others⟩ := List.forall_mem_cons.1 spared
        exact .inr ⟨.inr ⟨held, spared⟩, others⟩

/-- A file that no later one replaces is left as it was rendered. -/
theorem delivered {front back : List Product} (h : MakesAll (front ++ product :: back) before after)
    (spared : ∀ later ∈ back, ¬ later.Replaces product) :
    (∃ action : FileAction, action.writes = true ∧
      ⟨product.emission.kind.name, product.path, action, none⟩ ∈ after.report.files) ∧
      ∃ held text, product.emission.Gives held text ∧
      after.project.Stands product.path text.toUTF8 ∧
        ((∀ earlier ∈ front, earlier.names ≠ product.names) →
          held = none ∨ held = before.project.contentAt product.names) := by
  obtain ⟨ready, first, rest⟩ := h.split
  cases rest with
  | @cons _ _ _ between _ made others =>
    obtain ⟨action, writes, reported⟩ := made.reported
    obtain ⟨text, gives, stands⟩ := made.given
    have isIn :
        ⟨product.emission.kind.name, product.path, action, none⟩ ∈ between.report.files := by
      rw [reported]
      exact List.mem_append_right _ (List.mem_singleton.2 rfl)
    refine ⟨⟨action, writes, others.files.subset isIn⟩, _, text, gives, ?_, first.contentAt_cases⟩
    refine stands.of_touches others.touches ?_
    rintro ⟨later, mem, replaces⟩
    exact spared later mem replaces

end MakesAll

end Run

/-- A file that was made is reported as written, and stands as it was rendered; a section was merged
into what its file held at the start, if anything. -/
structure Product.Delivered (product : Product) (start : Project) (report : Report)
    (after : Project) : Prop where
  reported : ∃ action : FileAction, action.writes = true ∧
    ⟨product.emission.kind.name, product.path, action, none⟩ ∈ report.files
  stands : ∃ held text, (held = none ∨ held = start.contentAt product.names) ∧
    product.emission.Gives held text ∧ after.Stands product.path text.toUTF8

namespace Run

variable {before after : Run} {products : List Product}

namespace MakesAll

/-- When no file is replaced by a later one, all are left as they were rendered. -/
theorem delivered_of_pairwise (h : MakesAll products before after)
    (apart : products.Pairwise fun earlier later => ¬ later.Replaces earlier) {product : Product}
    (mem : product ∈ products) : product.Delivered before.project after.report after.project := by
  obtain ⟨front, back, rfl⟩ := List.append_of_mem mem
  obtain ⟨-, second, across⟩ := List.pairwise_append.1 apart
  obtain ⟨reported, held, text, gives, stands, origin⟩ :=
    h.delivered (List.pairwise_cons.1 second).1
  have own : ∀ earlier ∈ front, earlier.names ≠ product.names := fun earlier mem same =>
    across earlier mem product (List.mem_cons_self ..) (.inl same.symm)
  exact ⟨reported, held, text, origin own, gives, stands⟩

/-- When all files are left, each at a path of its own, none is replaced by a later one. -/
theorem pairwise_of_left (h : MakesAll products before after)
    (own : (products.map Product.names).Nodup)
    (left : ∀ product ∈ products, (after.project.contentAt product.names).isSome = true) :
    products.Pairwise fun earlier later => ¬ later.Replaces earlier := by
  induction h with
  | nil run => exact .nil
  | @cons product rest before between after made others ih =>
    rw [List.map_cons, List.nodup_cons] at own
    obtain ⟨held, remaining⟩ := List.forall_mem_cons.1 left
    have apart : ∀ other ∈ rest, other.names ≠ product.names := fun other mem same =>
      own.1 (same ▸ List.mem_map_of_mem mem)
    refine .cons (fun later mem => ?_) (ih own.2 remaining)
    rintro (same | drops)
    · exact apart later mem same
    · -- a file that is left is found by the pattern of no later one
      rcases others.isSome_contentAt_iff.1 held with ⟨front, other, back, rfl, same,
        -⟩ | ⟨-, spared⟩
      · exact apart other (List.mem_append_right _ (List.mem_cons_self ..)) same
      · exact spared later mem drops

end MakesAll

end Run
end Scaffold
