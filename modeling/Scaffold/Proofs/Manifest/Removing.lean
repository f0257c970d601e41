import Scaffold.Proofs.Manifest.Succeeding

/-!
# What a cleanup removes

A cleanup takes the records of paths out of the manifest one path after another, and its report
lists those paths: `Manifest.removed_cleanup`. Where every pattern expands and every deletion
succeeds they are all obsolete paths: `Manifest.cleanup_of_succeeds`.
-/

namespace Scaffold
set_option autoImplicit false

namespace Manifest

variable {m : Manifest}

/-- The manifest without the records of several paths. -/
def removeAll (m : Manifest) (paths : List String) : Manifest :=
  paths.foldl (fun m path => (m.remove path).2) m

theorem removeAll_append (m : Manifest) (front back : List String) :
    m.removeAll (front ++ back) = (m.removeAll front).removeAll back := List.foldl_append

/-- The records that are left keep their order. -/
theorem records_remove (m : Manifest) (path : String) :
    (m.remove path).2.records = m.records.filter (·.2.1 ≠ path) := by
  simp only [remove, recount, records, OrderedMap.map, OrderedMap.erase, List.flatMap_map,
    List.filter_flatMap, List.filter_map]
  refine List.flatMap_congr fun entry _ => congrArg (List.map _) (List.filter_congr fun x _ => ?_)
  by_cases here : x.1 = path <;> simp [here]

theorem records_removeAll (m : Manifest) (paths : List String) :
    (m.removeAll paths).records = m.records.filter (·.2.1 ∉ paths) := by
  induction paths generalizing m with
  | nil => simp [removeAll]
  | cons path rest ih =>
    have first : m.removeAll (path :: rest) = (m.remove path).2.removeAll rest := rfl
    rw [first, ih, records_remove, List.filter_filter]
    refine List.filter_congr fun r _ => ?_
    by_cases here : r.2.1 = path <;> simp [here]

end Manifest

namespace Cleanup

variable {required : List String} {g : Progress}

theorem removed_deleteFiles (files : List String) (g : Progress) :
    (deleteFiles files g).2.manifest = g.manifest ∧
    (deleteFiles files g).2.report.removedRecords = g.report.removedRecords := by
  induction files generalizing g with
  | nil => exact ⟨rfl, rfl⟩
  | cons file rest ih =>
    unfold deleteFiles
    split
    · exact ih _
    · exact ih _
    · rename_i f _
      have others := ih { g with report := { g.report with failures := g.report.failures ++ [f] } }
      split <;> rename_i eq <;> rw [eq] at others <;> exact others
    · exact ⟨rfl, rfl⟩

/-- How far a cleanup has come: the paths whose records it has removed, in order. -/
structure Removes (removed : List String) (before after : Progress) : Prop where
  manifest : after.manifest = before.manifest.removeAll removed
  report : after.report.removedRecords = before.report.removedRecords ++ removed

theorem removes_cleanPath (required : List String) (path : String) (g : Progress) :
    ∃ removed, removed.Sublist [path] ∧ Removes removed g (cleanPath required path g).2 := by
  have absent : Removes [] g g := ⟨rfl, (List.append_nil _).symm⟩
  unfold cleanPath
  split
  · exact ⟨[], List.nil_sublist _, rfl, (List.append_nil _).symm⟩
  · exact ⟨[], List.nil_sublist _, absent⟩
  · rename_i files _
    obtain ⟨manifest, report⟩ := removed_deleteFiles files g
    split <;> rename_i eq <;> rw [eq] at manifest report
    · exact ⟨[path], .refl _, congrArg (fun m => (Manifest.remove m path).2) manifest,
        congrArg (· ++ [path]) report⟩
    · exact ⟨[], List.nil_sublist _, manifest, report.trans (List.append_nil _).symm⟩
    · exact ⟨[], List.nil_sublist _, manifest, report.trans (List.append_nil _).symm⟩

theorem removes_cleanPaths (required paths : List String) (g : Progress) :
    ∃ removed, removed.Sublist paths ∧ Removes removed g (cleanPaths required paths g).2 := by
  induction paths generalizing g with
  | nil => exact ⟨[], .refl _, rfl, (List.append_nil _).symm⟩
  | cons path rest ih =>
    obtain ⟨first, within, removes⟩ := removes_cleanPath required path g
    unfold cleanPaths
    split <;> rename_i between eq <;> rw [eq] at removes
    · obtain ⟨others, below, further⟩ := ih between
      refine ⟨first ++ others, within.append below, ?_, ?_⟩
      · rw [further.manifest, removes.manifest, Manifest.removeAll_append]
      · rw [further.report, removes.report, List.append_assoc]
    · exact ⟨first, within.trans (by simp), removes⟩

/-- Files are deleted one after another, each without a failure. -/
inductive Deletes : List String → Project → Project → Prop where
  | nil (p : Project) : Deletes [] p p
  | cons {file : String} {rest : List String} {p between after : Project} (found : Bool)
      (deleted : p.delete file = .ok (found, between))
      (others : Deletes rest between after) : Deletes (file :: rest) p after

/-- Tracked paths are cleaned up one after another; each pattern expands and each deletion
succeeds. -/
inductive Succeeds (required : List String) : List String → Project → Project → Prop where
  | nil (p : Project) : Succeeds required [] p p
  | cons {path : String} {rest files : List String} {p between after : Project}
      (expanded : targets p required path = .ok files) (deletes : Deletes files p between)
      (others : Succeeds required rest between after) : Succeeds required (path :: rest) p after

theorem deleteFiles_of_deletes {files : List String} {p after : Project}
    (h : Deletes files p after) : ∀ (report : Cleanup)
    (m : Manifest), ∃ noted, deleteFiles files ⟨report, m, p⟩ = (.ok true, ⟨noted, m, after⟩) ∧
      noted.failures = report.failures ∧ noted.removedRecords = report.removedRecords := by
  induction h with
  | nil p => exact fun report m => ⟨report, rfl, rfl, rfl⟩
  | cons found deleted others ih =>
    intro report m
    cases found with
    | true =>
      obtain ⟨noted, done, failures, removed⟩ :=
        ih { report with deleted := report.deleted ++ [_] } m
      exact ⟨noted, by simp only [deleteFiles, deleted]; exact done, failures, removed⟩
    | false =>
      obtain ⟨noted, done, failures, removed⟩ :=
        ih { report with missing := report.missing ++ [_] } m
      exact ⟨noted, by simp only [deleteFiles, deleted]; exact done, failures, removed⟩

theorem cleanPaths_of_succeeds {paths : List String} {p after : Project}
    (h : Succeeds required paths p after) :
    ∀ (report : Cleanup) (m : Manifest), ∃ noted, cleanPaths required paths ⟨report, m, p⟩ =
      (.ok (), ⟨noted, m.removeAll paths, after⟩) ∧
      noted.failures = report.failures ∧ noted.removedRecords = report.removedRecords ++ paths := by
  induction h with
  | nil p => exact fun report m => ⟨report, rfl, rfl, (List.append_nil _).symm⟩
  | cons expanded deletes others ih =>
    rename_i path _ _ _ _ _
    intro report m
    obtain ⟨first, done, failures, removed⟩ := deleteFiles_of_deletes deletes report m
    obtain ⟨noted, rest, further, listed⟩ :=
      ih { first with removedRecords := first.removedRecords ++ [path] } (m.remove path).2
    refine ⟨noted, ?_, further.trans failures, ?_⟩
    · simp only [cleanPaths, cleanPath, expanded, done]
      exact rest
    · rw [listed, removed, List.append_assoc]
      rfl

theorem deletes_of_deleteFiles {files : List String} {after : Progress}
    (h : deleteFiles files g = (.ok true, after)) :
    Deletes files g.project after.project := by
  induction files generalizing g with
  | nil =>
    obtain ⟨-, rfl⟩ := Prod.mk.inj h
    exact .nil _
  | cons file rest ih =>
    unfold deleteFiles at h
    split at h
    · rename_i deleted
      exact .cons true deleted (ih h)
    · rename_i deleted
      exact .cons false deleted (ih h)
    · split at h <;> cases (Prod.mk.inj h).1
    · cases (Prod.mk.inj h).1

theorem succeeds_of_cleanPaths {paths : List String} {after : Progress}
    (h : cleanPaths required paths g = (.ok (), after))
    (empty : after.report.failures = []) : Succeeds required paths g.project after.project := by
  induction paths generalizing g with
  | nil =>
    obtain ⟨-, rfl⟩ := Prod.mk.inj h
    exact .nil _
  | cons path rest ih =>
    unfold cleanPaths at h
    split at h
    · rename_i between cleaned
      have clean : between.report.failures = [] := by
        have follows := (@follows_cleanPaths required between rest).1
        rw [h] at follows
        exact follows.failures empty
      unfold cleanPath at cleaned
      split at cleaned
      · obtain ⟨-, rfl⟩ := Prod.mk.inj cleaned
        simp at clean
      · cases (Prod.mk.inj cleaned).1
      · rename_i files expanded
        have noted := (follows_deleteFiles (g := g) files).2.2
        split at cleaned
        · rename_i gone deleted
          obtain ⟨-, rfl⟩ := Prod.mk.inj cleaned
          have others := ih h
          exact .cons expanded (deletes_of_deleteFiles deleted) others
        · rename_i gone failed
          obtain ⟨-, rfl⟩ := Prod.mk.inj cleaned
          rw [failed] at noted
          exact absurd clean (noted rfl)
        · cases (Prod.mk.inj cleaned).1
    · cases (Prod.mk.inj h).1

end Cleanup

namespace Manifest

variable {m : Manifest} {s : Schema} {p after : Project}

/-- Whether or not it is interrupted, a cleanup removes the records of some of the obsolete paths,
in their order, and its report lists them. -/
theorem removed_cleanup (m : Manifest) (s : Schema) (p : Project) :
    ∃ removed, removed.Sublist (m.obsolete s) ∧
      ((m.cleanup s p).2.1 = m.removeAll removed ∨
        (m.cleanup s p).2.1 = (m.removeAll removed).recount) ∧
      ∀ report, (m.cleanup s p).1 = .ok report → report.removedRecords = removed := by
  obtain ⟨removed, within, removes⟩ :=
    Cleanup.removes_cleanPaths s.requiredArtifacts (m.obsolete s) ⟨{}, m, p⟩
  refine ⟨removed, within, ?_⟩
  unfold cleanup
  split <;> rename_i eq <;> rw [eq] at removes
  · exact ⟨.inr (congrArg recount removes.manifest), fun report same =>
      by rw [← Except.ok.inj same, removes.report]; rfl⟩
  · exact ⟨.inl removes.manifest, nofun⟩

/-- Where every pattern expands and every deletion succeeds, a cleanup removes the records of all
obsolete paths, and its report lists these and no failure. -/
theorem cleanup_of_succeeds (h : Cleanup.Succeeds s.requiredArtifacts (m.obsolete s) p after) :
    ∃ report, m.cleanup s p = (.ok report, (m.removeAll (m.obsolete s)).recount, after) ∧
      report.failures = [] ∧ report.removedRecords = m.obsolete s := by
  obtain ⟨report, done, failures, removed⟩ := Cleanup.cleanPaths_of_succeeds h {} m
  refine ⟨report, ?_, failures, removed⟩
  simp only [cleanup, done]

/-- A report without failures comes from expansions and deletions that have succeeded. -/
theorem succeeds_of_cleanup {report : Cleanup} {left : Manifest}
    (h : m.cleanup s p = (.ok report, left, after))
    (empty : report.failures = []) :
    Cleanup.Succeeds s.requiredArtifacts (m.obsolete s) p after := by
  unfold cleanup at h
  split at h
  · rename_i g run
    obtain ⟨same, rest⟩ := Prod.mk.inj h
    obtain ⟨-, rfl⟩ := Prod.mk.inj rest
    obtain rfl := Except.ok.inj same
    exact Cleanup.succeeds_of_cleanPaths run empty
  · cases (Prod.mk.inj h).1

end Manifest
end Scaffold
