import Scaffold.Proofs.Generation.Products

/-!
# What a clean run delivers

A clean run of all components that reports success has made every file of the schema
(`Generation.makesAll_of_success`). All of them are there in the end, as they were rendered, exactly
when none replaces an earlier one: `Generation.delivers_iff_of_success`. Nothing compares the names
of tables and models with one another, so that one may.
-/

namespace Scaffold
set_option autoImplicit false

namespace Schema

variable {s : Schema} {now : Moment} {options : Options}

/-- The files that a run makes of a schema, with their paths. -/
def products (s : Schema) (now : Moment) (options : Options) : List Product :=
  Emission.placed now 0 (Emission.ofSchema s options s.dependencyOrder)

theorem isBelowRoots_of_mem_products {product : Product} (mem : product ∈ s.products now options) :
    IsBelowRoots product.names := by
  obtain ⟨isIn, named, path⟩ := Emission.emission_mem_of_placed mem
  rw [Product.names, path]
  exact Emission.root_of_touched isIn (product.emission.touched_pathAt now named)

/-- A schema without errors has an entity. -/
theorem exists_entity_of_isValid (valid : s.findings.isValid = true) :
    ∃ name e, s.entities.get? name = some e := by
  cases entries : s.entities.entries with
  | cons entry rest =>
    exact ⟨entry.1, entry.2, OrderedMap.get?_eq_some.2 (entries ▸ List.mem_cons_self ..)⟩
  | nil =>
    have problem : Problem.noEntities ∈ s.problems := by
      simp [problems, OrderedMap.isEmpty, entries]
    have isError : Problem.noEntities.finding ∈ s.findings.errors :=
      List.mem_filter.2 ⟨List.mem_map_of_mem problem, by decide⟩
    rw [Findings.isValid, List.isEmpty_iff] at valid
    rw [valid] at isError
    exact absurd isError List.not_mem_nil

end Schema

namespace Emission

variable {s : Schema} {options : Options}

/-- The first file of a run of all components is a model. -/
theorem head_of_ofSchema (all : options.only = [])
    (filled : ∃ name e, s.entities.get? name = .some e) :
    ∃ kind path text metadata, (ofSchema s options s.dependencyOrder).head? =
      .some (.whole kind path text metadata) := by
  obtain ⟨name, e, found⟩ := filled
  have ordered : name ∈ s.dependencyOrder :=
    s.dependencyOrder_perm.mem_iff.2 (List.mem_map_of_mem (OrderedMap.mem_of_get? found))
  have mem : e ∈ s.dependencyOrder.filterMap s.entities.get? :=
    List.mem_filterMap.2 ⟨name, ordered, found⟩
  cases entities : s.dependencyOrder.filterMap s.entities.get? with
  | nil =>
    rw [entities] at mem
    exact absurd mem List.not_mem_nil
  | cons first rest =>
    have included : options.includes .models = true := by simp [Options.includes, all]
    refine ⟨.models, Artifact.modelPath first, .ok (Render.modelPage s first),
      entityMetadata first, ?_⟩
    simp [ofSchema, entities, ofEntity, included]

end Emission

namespace Run

variable {now : Moment} {options : Options} {s : Schema} {p : Project} {m : Manifest}
  {begun : Report} {run after : Run}

/-- A run that is applied only adds to its report. -/
theorem extends_of_apply (h : apply now options s (planned options s p m begun) = (.ok (), run)) :
    begun.Extends run.report := by
  unfold apply at h
  cases making : makeFiles now options s (planned options s p m begun) with
  | mk outcome made =>
    rw [making] at h
    cases outcome with
    | error e => cases (Prod.mk.inj h).1
    | ok _ =>
      have saved := extends_saveManifest now options made
      rw [show saveManifest now options made = (.ok (), run) from h] at saved
      exact (spares_of_makeFiles making).2.1.trans saved

theorem Saves.files {stamp : Bool} (h : Saves now m stamp run after) :
    after.report.files = run.report.files := by
  cases h with
  | unsaved f refused noted => rw [noted]; rfl
  | unrecorded saved f stamped done refused noted => rw [noted]; rfl
  | saved saved entry detail done entered noted => rw [noted]; rfl

end Run

namespace Generation

variable {now : Moment} {options : Options} {s : Schema} {p after : Project} {report : Report}

/-- From its plan a run keeps it, and where nothing has changed it reports no files. -/
theorem planned_of_decided {m : Manifest} {start : Report} (acts : options.mode ≠ .preview)
    (h : decided now options s p m (begun options s m start) = (.ok report, after))
    (fresh : start.files = [] ∧ start.unchanged = false) :
    report.plan ≠ none ∧ (report.unchanged = true → report.files = []) := by
  rcases decided_eq_ok acts h with ⟨-, -, rfl, -⟩ | ⟨run, applied, rfl, -⟩
  · exact ⟨by simp [begun, reportPlan, Report.addStep], fun _ => fresh.1⟩
  · have further := Run.extends_of_apply applied
    refine ⟨by simp [further.plan, begun, reportPlan, Report.addStep], fun unchanged => ?_⟩
    cases fresh.2.symm.trans (further.unchanged.symm.trans unchanged)

theorem planned_of_continueWith {strict : Bool} {start : Report} (acts : options.mode ≠ .preview)
    (h : continueWith now options strict s p start = (.ok report, after))
    (success : report.isSuccess = true) (fresh : start.files = [] ∧ start.unchanged = false) :
    report.plan ≠ none ∧ (report.unchanged = true → report.files = []) := by
  cases opens_continueWith h with
  | stopped cause eq => cases (Prod.mk.inj eq).1
  | refused refusal eq fails =>
    obtain rfl := Except.ok.inj (Prod.mk.inj eq).1
    cases fails.symm.trans success
  | planned m valid loads printable eq => exact planned_of_decided acts eq.symm fresh

/-- A run that succeeds has made a plan, and where nothing has changed it reports no files. -/
theorem planned_of_success (acts : options.mode ≠ .preview)
    (ran : Runs now options s p report after) (success : report.isSuccess = true) :
    report.plan ≠ none ∧ (report.unchanged = true → report.files = []) := by
  cases ran with
  | ofSchema strict ran => exact planned_of_continueWith acts ran success ⟨rfl, rfl⟩
  | ofFile path loaded ran =>
    simp only [generateFromFile, loaded] at ran
    exact planned_of_continueWith acts ran success ⟨rfl, rfl⟩

/-- A clean run of all components that succeeds where something has changed makes all files of the
schema. Before that, files may go from where they are made, and afterwards they are left alone. -/
theorem makesAll_of_success (clean : options.mode = .clean) (all : options.only = [])
    (ran : Runs now options s p report after) (success : report.isSuccess = true)
    (past : report.unchanged = false) :
    ∃ ready made, Run.MakesAll (s.products now options) ready made ∧
    made.report.files <+: report.files ∧
      (∀ names, Schema.IsBelowRoots names →
        ready.project.contentAt names = none ∨ ready.project.contentAt names = p.contentAt names) ∧
      Project.Touches (fun names => ¬ Schema.IsBelowRoots names) made.project after := by
  have acts : options.mode ≠ .preview := by rw [clean]; decide
  obtain ⟨⟨valid, -⟩, m, begun, run, -, -, -, applied, rfl, rfl⟩ :=
    applied_of_runs acts ran (planned_of_success acts ran success).1 past
  obtain ⟨made, tracked, making, -, -, -, -, saves⟩ := saves_of_apply applied
  obtain ⟨noFailure, saved, done, entered⟩ := saved_of_success saves success
  obtain ⟨cleaned, -, ready, emitted, cleanedUp, -, -, -, -, -, moved, -, unnamed, making, project,
    -, further⟩ :=
    Run.makeFiles_eq_ok making
  rw [clean] at making
  have makesAll := Run.makesAll_emitAll (fun _ => id)
    (.inr (Emission.head_of_ofSchema all (Schema.exists_entity_of_isValid valid))) making
      (further.clean noFailure)
  rw [unnamed] at makesAll
  refine ⟨ready, emitted, makesAll, saves.files ▸ further.files, fun names below => ?_, ?_⟩
  · have apart : names ≠ namesOf Run.envPath := by
      rintro rfl
      obtain ⟨root, isRoot, rest, same⟩ := below
      have env : namesOf Run.envPath = [".env"] := by decide
      rw [env] at same
      rw [← (List.cons.inj same).1] at isRoot
      exact absurd isRoot (by decide)
    rw [moved.project.contents names apart]
    exact (cleanedUp.project.contents names).symm
  · have written :=
      Store.touches_save ({} : Store)
        (Run.toSave now s (Run.isClean made.report && options.only.isEmpty) tracked)
      made.project
    rw [done] at written
    rw [← project]
    exact (written.mono fun names same below =>
      below.apart.1 (same.trans Store.namesOf_manifestPath)).trans
      (entered.mono fun names touched below => below.apart.2 touched)

/-- A clean run of all components that reports success stops because nothing has changed, or leaves
every file of the schema as it was rendered, at a path of its own, exactly when none of them
replaces an earlier one: when no two have the same path, and the pattern of no migration finds a
file that was made before. -/
theorem delivers_iff_of_success (clean : options.mode = .clean) (all : options.only = [])
    (ran : Runs now options s p report after) (success : report.isSuccess = true) :
    (report.unchanged = true ∧ report.files = []) ∨
      (((s.products now options).Pairwise fun earlier later => ¬ later.Replaces earlier) ↔
        ((s.products now options).map Product.names).Nodup ∧
          ∀ product ∈ s.products now options, product.Delivered p report after) := by
  have acts : options.mode ≠ .preview := by rw [clean]; decide
  cases past : report.unchanged with
  | true => exact .inl ⟨rfl, (planned_of_success acts ran success).2 past⟩
  | false =>
    right
    obtain ⟨ready, made, makesAll, files, before, touched⟩ :=
      makesAll_of_success clean all ran success past
    constructor
    · intro apart
      refine ⟨?_, fun product mem => ?_⟩
      · rw [List.Nodup, List.pairwise_map]
        exact apart.imp fun spared same => spared (.inl same.symm)
      · have below := Schema.isBelowRoots_of_mem_products mem
        obtain ⟨⟨action, writes, reported⟩, held, text, origin, gives, stands⟩ :=
          makesAll.delivered_of_pairwise apart mem
        refine ⟨⟨action, writes, files.subset reported⟩, held, text, ?_, gives,
          stands.of_touches touched (not_not_intro below)⟩
        rcases origin with absent | same
        · exact .inl absent
        · rw [same]
          exact before _ below
    · rintro ⟨own, delivered⟩
      refine makesAll.pairwise_of_left own fun product mem => ?_
      obtain ⟨-, text, -, -, stands⟩ := (delivered product mem).stands
      have left :=
        touched.contents product.names (not_not_intro (Schema.isBelowRoots_of_mem_products mem))
      rw [← left, Product.names, stands.contentAt]
      rfl

/-- The run that deletes a model which is not required any more reports success, so this holds of
it. -/
theorem delivers_iff_of_success_staleProject :
    ∃ report after, Runs noon {} tagSchema staleProject report after ∧
    report.isSuccess = true ∧ ((report.unchanged = true ∧ report.files = []) ∨
      (((tagSchema.products noon {}).Pairwise fun earlier later => ¬ later.Replaces earlier) ↔
        ((tagSchema.products noon {}).map Product.names).Nodup ∧
          ∀ product ∈ tagSchema.products noon {},
          product.Delivered staleProject report after)) := by
  obtain ⟨report, after, ran, -, -, success, -⟩ := success_staleProject
  exact ⟨report, after, .ofSchema false ran, success,
    delivers_iff_of_success rfl rfl (.ofSchema false ran) success⟩

end Generation
end Scaffold
