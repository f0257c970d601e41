import Scaffold.Proofs.Manifest.Tracking

/-!
# Cleanups without failures

Whatever its outcome, a cleanup only takes away: files from the disk, records from the manifest.
When it reports no failure, nothing that is tracked is obsolete afterwards. The main statements are
`Manifest.shrinks_cleanup` and `Manifest.obsolete_cleanup`.
-/

namespace Scaffold
set_option autoImplicit false

namespace Cleanup

/-- A cleanup that has gone on. -/
structure Follows (before after : Progress) : Prop where
  project : Project.Shrinks before.project after.project
  hash : after.manifest.schemaHash = before.manifest.schemaHash
  records : ∀ r ∈ after.manifest.records, r ∈ before.manifest.records
  failures : after.report.failures = [] → before.report.failures = []

variable {required : List String} {g : Progress}

theorem Follows.refl (g : Progress) : Follows g g := ⟨.refl _, rfl, fun _ => id, id⟩

theorem Follows.trans {a b c : Progress} (first : Follows a b) (second : Follows b c) :
    Follows a c :=
  ⟨first.project.trans second.project, second.hash.trans first.hash, fun r mem =>
    first.records r (second.records r mem), fun absent => first.failures (second.failures absent)⟩

/-- A failure is noted in the report. -/
theorem follows_failed (f : IOFailure) :
    Follows g { g with report := { g.report with failures := g.report.failures ++ [f] } } :=
  ⟨.refl _, rfl, fun _ => id, by simp⟩

/-- Deleting files; where one cannot be deleted, there is a failure. -/
theorem follows_deleteFiles (files : List String) :
    Follows g (deleteFiles files g).2 ∧ (deleteFiles files g).2.manifest = g.manifest ∧
      ((deleteFiles files g).1 = .ok false → (deleteFiles files g).2.report.failures ≠ []) := by
  induction files generalizing g with
  | nil => exact ⟨.refl g, rfl, nofun⟩
  | cons file rest ih =>
    unfold deleteFiles
    split
    · rename_i project deleted
      obtain ⟨follows, same, noted⟩ := ih (g := { g with
        project, report := { g.report with deleted := g.report.deleted ++ [file] } })
      have first : Follows g { g with
          project, report := { g.report with deleted := g.report.deleted ++ [file] } } :=
        ⟨Project.shrinks_delete deleted, rfl, fun _ => id, id⟩
      exact ⟨first.trans follows, same, noted⟩
    · rename_i project deleted
      obtain ⟨follows, same, noted⟩ := ih (g := { g with
        project, report := { g.report with missing := g.report.missing ++ [file] } })
      have first : Follows g { g with
          project, report := { g.report with missing := g.report.missing ++ [file] } } :=
        ⟨Project.shrinks_delete deleted, rfl, fun _ => id, id⟩
      exact ⟨first.trans follows, same, noted⟩
    · rename_i f _
      obtain ⟨follows, same, noted⟩ :=
        ih (g := { g with report := { g.report with failures := g.report.failures ++ [f] } })
      have failed : (deleteFiles rest { g with
          report := { g.report with failures := g.report.failures ++ [f] } }).2.report.failures
          ≠ [] := fun absent => by simpa using follows.failures absent
      cases others : deleteFiles rest
          { g with report := { g.report with failures := g.report.failures ++ [f] } } with
      | mk outcome after =>
        rw [others] at follows same failed
        have all := (follows_failed f).trans follows
        cases outcome with
        | ok _ => exact ⟨all, same, fun _ => failed⟩
        | error e => exact ⟨all, same, nofun⟩
    · exact ⟨.refl g, rfl, nofun⟩

/-- One tracked path: its records are gone, or there is a failure, or the cleanup is interrupted. -/
theorem follows_cleanPath (path : String) :
    Follows g (cleanPath required path g).2 ∧ ((cleanPath required path g).1 = .ok () →
      (cleanPath required path g).2.report.failures = [] →
        ∀ r ∈ (cleanPath required path g).2.manifest.records, r.2.1 ≠ path) := by
  unfold cleanPath
  split
  · rename_i f _
    exact ⟨follows_failed f, fun _ absent => by simp at absent⟩
  · exact ⟨.refl g, nofun⟩
  · rename_i files _
    obtain ⟨follows, same, noted⟩ := follows_deleteFiles (g := g) files
    cases deletion : deleteFiles files g with
    | mk outcome after =>
      rw [deletion] at follows same noted
      cases outcome with
      | error e => exact ⟨follows, nofun⟩
      | ok all =>
        cases all with
        | false => exact ⟨follows, fun _ absent => absurd absent (noted rfl)⟩
        | true =>
          refine ⟨follows.trans ⟨.refl _, rfl, fun r mem => ?_, id⟩, fun _ _ r mem => ?_⟩
          · exact (Manifest.mem_records_remove.1 mem).1
          · exact (Manifest.mem_records_remove.1 mem).2

/-- A list of tracked paths that is cleaned up without failures leaves no record of them. -/
theorem follows_cleanPaths (paths : List String) :
    Follows g (cleanPaths required paths g).2 ∧ ((cleanPaths required paths g).1 = .ok () →
      (cleanPaths required paths g).2.report.failures = [] →
        ∀ r ∈ (cleanPaths required paths g).2.manifest.records, r.2.1 ∉ paths) := by
  induction paths generalizing g with
  | nil => exact ⟨.refl g, by simp⟩
  | cons path rest ih =>
    obtain ⟨first, gone⟩ := follows_cleanPath (g := g) path
    unfold cleanPaths
    cases cleaned : cleanPath required path g with
    | mk outcome between =>
      rw [cleaned] at first gone
      cases outcome with
      | error e => exact ⟨first, fun done => by cases done⟩
      | ok _ =>
        obtain ⟨others, left⟩ := ih (g := between)
        refine ⟨first.trans others, fun done absent r mem => ?_⟩
        rw [List.mem_cons, not_or]
        exact ⟨gone rfl (others.failures absent) r (others.records r mem), left done absent r mem⟩

end Cleanup

namespace Manifest

variable {m : Manifest} {s : Schema} {p : Project}

/-- A cleanup takes files and records away and leaves the digest of the manifest alone. -/
theorem shrinks_cleanup (m : Manifest) (s : Schema) (p : Project) :
    Project.Shrinks p (m.cleanup s p).2.2 ∧ (m.cleanup s p).2.1.schemaHash = m.schemaHash ∧
      ∀ r ∈ (m.cleanup s p).2.1.records, r ∈ m.records := by
  have follows := (@Cleanup.follows_cleanPaths s.requiredArtifacts ⟨{}, m, p⟩ (m.obsolete s)).1
  unfold cleanup
  cases run : Cleanup.cleanPaths s.requiredArtifacts (m.obsolete s) ⟨{}, m, p⟩ with
  | mk outcome g =>
    rw [run] at follows
    cases outcome <;> exact ⟨follows.project, follows.hash, follows.records⟩

/-- After a cleanup without failures nothing that is tracked is obsolete. -/
theorem obsolete_cleanup {report : Cleanup} (h : (m.cleanup s p).1 = .ok report)
    (empty : report.failures = []) : (m.cleanup s p).2.1.obsolete s = [] := by
  have follows := @Cleanup.follows_cleanPaths s.requiredArtifacts ⟨{}, m, p⟩ (m.obsolete s)
  unfold cleanup at h ⊢
  cases run : Cleanup.cleanPaths s.requiredArtifacts (m.obsolete s) ⟨{}, m, p⟩ with
  | mk outcome g =>
    rw [run] at follows h
    cases outcome with
    | error e => cases h
    | ok _ =>
      obtain rfl := Except.ok.inj h
      rw [obsolete_eq_nil]
      intro path tracked
      obtain ⟨r, isRecord, rfl⟩ := mem_trackedPaths.1 tracked
      have left := follows.2 rfl empty r isRecord
      rw [mem_obsolete, not_and, Bool.not_eq_false] at left
      exact left (mem_trackedPaths.2 ⟨r, follows.1.records r isRecord, rfl⟩)

end Manifest
end Scaffold
