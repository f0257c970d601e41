import Scaffold.Proofs.Generation.Completing
import Scaffold.Proofs.Generation.Delivery
import Scaffold.Proofs.Generation.Stranding
import Scaffold.Proofs.Manifest.Removing

/-!
# Previews

A preview ends at its plan and changes nothing. A clean run from the same state has the same plan,
and where every deletion succeeds its cleanup drops the records of just the paths that the plan
lists. Any run that is not to act, because the schema is invalid or unchanged or the manifest cannot
be loaded, changes nothing either. The main statement is `Generation.preview_foretells`.
-/

namespace Scaffold
set_option autoImplicit false

namespace Reconciliation

variable {options : Options} {s : Schema} {m : Manifest} {p gone : Project}

/-- A clean run deletes what its plan lists, if anything. -/
theorem reconcile_planned (cleans : options.mode = .clean) : (planned options s m).reconcile p =
    if (m.obsolete s).isEmpty then (.ok {}, { planned options s m with state := .reconciled }, p)
    else match m.cleanup s p with
      | (.ok c, left, p) =>
        (.ok c, { planned options s m with manifest? := some left, state := .reconciled }, p)
      | (.error e, left, p) =>
          (.error e, { planned options s m with manifest? := some left }, p) := by
  cases cleaned : m.cleanup s p with
  | mk outcome rest =>
    cases outcome <;> simp only [planned, reconcile, expect, cleans, Plan.of, cleaned, if_true]

theorem reconcile_of_succeeds (cleans : options.mode = .clean)
    (h : Cleanup.Succeeds s.requiredArtifacts (m.obsolete s) p gone) :
    ∃ c left, (planned options s m).reconcile p =
        (.ok c, { planned options s m with manifest? := some left, state := .reconciled }, gone) ∧
      c.failures = [] ∧ c.removedRecords = m.obsolete s ∧
      left.records = m.records.filter (·.2.1 ∉ m.obsolete s) := by
  rw [reconcile_planned cleans]
  split
  · rename_i empty
    rw [List.isEmpty_iff] at empty
    rw [empty] at h ⊢
    cases h
    exact ⟨{}, m, rfl, rfl, rfl, by simp⟩
  · obtain ⟨c, done, failures, removed⟩ := Manifest.cleanup_of_succeeds h
    rw [done]
    exact ⟨c, _, rfl, failures, removed, Manifest.records_removeAll m _⟩

theorem succeeds_of_reconcile (cleans : options.mode = .clean) {c : Cleanup} {r : Reconciliation}
    (h : (planned options s m).reconcile p = (.ok c, r, gone)) (absent : c.failures = []) :
    Cleanup.Succeeds s.requiredArtifacts (m.obsolete s) p gone := by
  rw [reconcile_planned cleans] at h
  split at h
  · rename_i empty
    obtain ⟨-, rest⟩ := Prod.mk.inj h
    obtain ⟨-, rfl⟩ := Prod.mk.inj rest
    rw [List.isEmpty_iff.1 empty]
    exact .nil p
  · split at h
    · rename_i report left after done
      obtain ⟨same, rest⟩ := Prod.mk.inj h
      obtain ⟨-, rfl⟩ := Prod.mk.inj rest
      obtain rfl := Except.ok.inj same
      exact Manifest.succeeds_of_cleanup done absent
    · cases (Prod.mk.inj h).1

end Reconciliation

namespace Generation

variable {now : Moment} {options : Options} {s : Schema} {p after : Project} {m : Manifest}
  {outcome : Except Stop Report}

/-- A run of a valid schema over a manifest that can be loaded comes to its plan, unless the
document cannot be printed. -/
theorem decided_of_leads (valid : s.findings.isValid = true) (loads : ({} : Store).load p = .ok m)
    (h : Leads now options s p outcome after) :
    ∃ start, IsPlain start ∧ (outcome, after) =
      if (Json.object s.document).isPrintable then decided now options s p m
        (begun options s m start)
      else (.error (.interrupted (.numeral .unwritable)), p) := by
  cases h with
  | ofSchema strict ran =>
    exact ⟨emptyReport options p, ⟨rfl, rfl, rfl⟩, ran ▸ continueWith_eq _ valid loads⟩
  | ofFile path loaded ran =>
    simp only [generateFromFile, loaded] at ran
    exact ⟨_, ⟨rfl, rfl, rfl⟩, ran ▸ continueWith_eq _ valid loads⟩

/-- A run that is not to act leaves its project as it is. -/
theorem project_continueWith {strict : Bool} {start : Report} (rests : ¬ Acts options s p) :
    (continueWith now options strict s p start).2 = p := by
  cases @opens_continueWith now options s p start strict _ rfl with
  | stopped cause eq => rw [eq]
  | refused report eq => rw [eq]
  | planned m valid loads printable eq =>
    rw [acts_iff valid loads] at rests
    rw [eq, decided]
    split
    · rfl
    · rename_i changes
      rw [if_pos (by simpa using fun same => rests ⟨changes, same⟩)]

theorem project_of_leads (rests : ¬ Acts options s p) (h : Leads now options s p outcome after) :
    after = p := by
  cases h with
  | ofSchema strict ran => exact (congrArg Prod.snd ran).symm.trans (project_continueWith rests)
  | ofFile path loaded ran =>
    simp only [generateFromFile, loaded] at ran
    exact (congrArg Prod.snd ran).symm.trans (project_continueWith rests)

/-- A report with complaints comes from a run that was not to act. -/
theorem rests_of_report {report : Report} (h : Leads now options s p (.ok report) after)
    (complains : report.validationErrors ≠ [] ∨ report.inputErrors ≠ [] ∨ report.unchanged = true) :
    after = p := by
  by_contra changed
  have acts : Acts options s p := by
    by_contra rests
    exact changed (project_of_leads rests h)
  obtain ⟨m, loads, -⟩ := acts.due
  obtain ⟨start, plain, came⟩ := decided_of_leads acts.valid loads h
  have begins : IsPlain (begun options s m start) := plain.begun acts.valid
  split at came
  · rcases decided_eq_ok acts.changes came.symm with ⟨-, -, -, left⟩ | ⟨run, applied, rfl, -⟩
    · exact changed left
    · have further := Run.extends_of_apply applied
      rw [further.validationErrors, further.inputErrors, further.unchanged, begins.noErrors,
        begins.noInput, begins.acts] at complains
      simp at complains
  · cases (Prod.mk.inj came).1

/-- How a clean run carries out a plan that was made from a manifest. -/
structure CarriesOut (now : Moment) (options : Options) (s : Schema) (p : Project)
    (m : Manifest) (plan : Plan) (outcome : Except Stop Report) (after : Project) : Prop where
  reported : ∀ report, outcome = .ok report → report.plan = some plan
  /-- It rests where nothing has changed, or is applied. -/
  goesOn : (m.differsFrom s = false ∧ options.force = false ∧ after = p) ∨
    ∃ begun, begun.plan = some plan ∧
    (outcome, after) = ended (Run.apply now options s (Run.planned options s p m begun))
  /-- Its cleanup reports no failure just when every expansion and deletion succeeds. -/
  cleanup : ∀ begun gone, Cleanup.Succeeds s.requiredArtifacts plan.cleanup p gone ↔
    ∃ c r, (Run.planned options s p m begun).reconciliation.reconcile p = (.ok c, r, gone) ∧
    c.failures = []
  /-- Then the records of the paths that the plan lists are dropped, in their order, and no
  others. -/
  dropped : ∀ begun gone c r, (Run.planned options s p m begun).reconciliation.reconcile p =
    (.ok c, r, gone) → c.failures = [] → c.removedRecords = plan.cleanup ∧
      ∃ left, r.manifest? = some left ∧ left.records = m.records.filter (·.2.1 ∉ plan.cleanup)

theorem carriesOut_of_decided {start : Report} (cleans : options.mode = .clean)
    (came : (outcome, after) = decided now options s p m (begun options s m start)) :
    CarriesOut now options s p m (Plan.of options.mode m s) outcome after := by
  have planned : (begun options s m start).plan = some (Plan.of options.mode m s) := rfl
  have acts : options.mode ≠ .preview := by rw [cleans]; decide
  constructor
  · rintro report rfl
    rcases decided_eq_ok acts came.symm with ⟨-, -, rfl, -⟩ | ⟨run, applied, rfl, -⟩
    · exact planned
    · exact (Run.extends_of_apply applied).plan.trans planned
  · rw [decided, if_neg acts] at came
    split at came
    · rename_i same
      simp only [Bool.and_eq_true, Bool.not_eq_true'] at same
      exact .inl ⟨same.1, same.2, (Prod.mk.inj came).2⟩
    · exact .inr ⟨_, planned, came⟩
  · intro begun gone
    constructor
    · intro succeeds
      obtain ⟨c, left, done, failures, -⟩ := Reconciliation.reconcile_of_succeeds cleans succeeds
      exact ⟨c, _, done, failures⟩
    · rintro ⟨c, r, done, absent⟩
      exact Reconciliation.succeeds_of_reconcile cleans done absent
  · intro begun gone c r done absent
    obtain ⟨c', left, done', -, removed, records⟩ :=
      Reconciliation.reconcile_of_succeeds cleans
        (Reconciliation.succeeds_of_reconcile cleans done absent)
    obtain ⟨same, rest⟩ := Prod.mk.inj (done.symm.trans done')
    obtain ⟨rfl, -⟩ := Prod.mk.inj rest
    obtain rfl := Except.ok.inj same
    exact ⟨removed, left, rfl, records⟩

/-- A preview, and any run that is not to act, leaves its project as it is. From a valid schema and
a manifest that can be loaded a preview reports a plan, and a clean run from the same state carries
out that plan in its own mode; both are stopped alike where the document of the schema cannot be
printed. -/
theorem preview_foretells (now now' : Moment) (options options' : Options) (s : Schema)
    (p : Project) :
    (∀ outcome after, Leads now options s p outcome after →
      options.mode = .preview ∨ s.findings.isValid = false ∨
      (∃ cause, ({} : Store).load p = .error cause) ∨
        (∃ m, ({} : Store).load p = .ok m ∧ m.differsFrom s = false ∧ options.force = false) ∨
        (∃ report, outcome = .ok report ∧
          (report.validationErrors ≠ [] ∨ report.inputErrors ≠ [] ∨ report.unchanged = true)) →
          after = p) ∧
    ∀ m outcome after outcome' after', s.findings.isValid = true → ({} : Store).load p = .ok m →
      options.mode = .preview → options'.mode = .clean →
      Leads now options s p outcome after → Leads now' options' s p outcome' after' →
      if (Json.object s.document).isPrintable then
        ∃ report plan, outcome = .ok report ∧ report.plan = some plan ∧
          CarriesOut now' options' s p m { plan with mode := .clean } outcome' after'
      else outcome = .error (.interrupted (.numeral .unwritable)) ∧ outcome' = outcome ∧
        after' = p := by
  constructor
  · rintro outcome after leads (previews | invalid | ⟨cause, unloadable⟩ | ⟨m, loads, same,
      unforced⟩ | ⟨report, rfl, complains⟩)
    · exact project_of_leads (fun acts => acts.changes previews) leads
    · exact project_of_leads (fun acts => absurd (acts.valid.symm.trans invalid) (by decide)) leads
    · refine project_of_leads (fun acts => ?_) leads
      obtain ⟨m, loads, -⟩ := acts.due
      cases unloadable.symm.trans loads
    · refine project_of_leads (fun acts => ?_) leads
      obtain ⟨found, loads', due⟩ := acts.due
      obtain rfl := Except.ok.inj (loads.symm.trans loads')
      rw [same, unforced] at due
      simp at due
    · exact rests_of_report leads complains
  · intro m outcome after outcome' after' valid loads previews cleans preview clean
    obtain ⟨start, -, came⟩ := decided_of_leads valid loads preview
    obtain ⟨start', -, came'⟩ := decided_of_leads valid loads clean
    split
    · rename_i printable
      rw [if_pos printable] at came came'
      rw [decided, if_pos previews] at came
      obtain ⟨rfl, rfl⟩ := Prod.mk.inj came
      refine ⟨_, Plan.of options.mode m s, rfl, rfl, ?_⟩
      have carried := carriesOut_of_decided cleans came'
      rwa [cleans] at carried
    · rename_i unprintable
      rw [if_neg unprintable] at came came'
      obtain ⟨rfl, -⟩ := Prod.mk.inj came
      obtain ⟨rfl, rfl⟩ := Prod.mk.inj came'
      exact ⟨rfl, rfl, rfl⟩

/-- The manifest of a stale project tracks one path that is obsolete, and it can be deleted. -/
theorem checked_staleProject :
    succeeds (({} : Store).load staleProject) (fun m => tagSchema.findings.isValid &&
      (Json.object tagSchema.document).isPrintable &&
      succeeds ((Reconciliation.planned {} tagSchema m).reconcile staleProject).1 (fun c =>
        c.failures.isEmpty && c.removedRecords == ["app/Models/Old.php"])) = true := by
  decide +kernel

/-- A preview in that project lists the path, and a clean run carries out its plan. -/
theorem preview_foretells_staleProject : ∃ m report outcome after,
    ({} : Store).load staleProject = .ok m ∧ tagSchema.findings.isValid = true ∧
      generate noon { mode := .preview } false tagSchema staleProject = (.ok report, staleProject) ∧
      generate noon {} false tagSchema staleProject = (outcome, after) ∧
      ∃ plan, report.plan = some plan ∧ plan.cleanup = ["app/Models/Old.php"] ∧
        CarriesOut noon {} tagSchema staleProject m { plan with mode := .clean } outcome after := by
  obtain ⟨m, loads, checked⟩ := succeeds_eq_true.1 checked_staleProject
  simp only [Bool.and_eq_true] at checked
  obtain ⟨⟨valid, printable⟩, reconciles⟩ := checked
  obtain ⟨c, reconciled, clean⟩ := succeeds_eq_true.1 reconciles
  simp only [Bool.and_eq_true, beq_iff_eq, List.isEmpty_iff] at clean
  obtain ⟨pure, foretells⟩ :=
    preview_foretells noon noon { mode := .preview } {} tagSchema staleProject
  obtain ⟨shown, kept, previewed⟩ :
      ∃ outcome after, generate noon { mode := .preview } false tagSchema staleProject =
      (outcome, after) := ⟨_, _, Prod.mk.eta.symm⟩
  obtain ⟨outcome, after, ran⟩ :
    ∃ outcome after, generate noon {} false tagSchema staleProject = (outcome, after) :=
    ⟨_, _, Prod.mk.eta.symm⟩
  have foretold :=
    foretells m shown kept outcome after valid loads rfl rfl (.ofSchema false previewed)
      (.ofSchema false ran)
  rw [if_pos printable] at foretold
  obtain ⟨report, plan, rfl, planned, carried⟩ := foretold
  obtain rfl := pure _ _ (.ofSchema false previewed) (.inl rfl)
  have dropped := (carried.dropped report _ c _ (Prod.fst_eq_iff.1 reconciled) clean.1).1
  exact ⟨m, report, outcome, after, loads, valid, previewed, ran, plan, planned,
    dropped.symm.trans clean.2, carried⟩

end Generation
end Scaffold
