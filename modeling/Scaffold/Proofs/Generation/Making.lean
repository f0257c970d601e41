import Scaffold.Proofs.Generation.Keeping
import Scaffold.Proofs.Project.Keeping

/-!
# What making one file does

`Run.Makes` says what a clean run has done when it has made a file without a failure: the file
stands at its path as it was rendered and is reported, the files that it replaces are gone, and no
other one has changed. The main statement is `Run.makes_emit`.
-/

namespace Scaffold
set_option autoImplicit false

namespace Emission

/-- The kind under which a file is reported. -/
def kind : Emission → ArtifactKind
  | .whole kind _ _ _ => kind
  | .merged kind _ _ _ _ _ _ => kind
  | .migration _ _ _ => .migrations

/-- How many migrations are named for a file. -/
def count : Emission → Nat
  | .migration _ _ _ => 1
  | .whole _ _ _ _ | .merged _ _ _ _ _ _ _ => 0

/-- Where a file is made, when some migrations were named before. -/
def pathAt (now : Moment) (named : Nat) : Emission → String
  | .whole _ path _ _ => path
  | .merged _ path _ _ _ _ _ => path
  | .migration suffix _ _ => Artifact.migrationPath ((now.plusSeconds? named).getD now) suffix

/-- The files that go before a migration is written are those that its pattern finds. -/
def Drops : Emission → List String → Prop
  | .migration suffix _ _, names =>
    ∃ pattern, Glob.ofText (Artifact.migrationPattern suffix) = .ok pattern ∧
      GlobStep.Matches pattern.steps names
  | .whole _ _ _ _, _ | .merged _ _ _ _ _ _ _, _ => False

/-- A file is given a text. That of a section hangs on what the file has held. -/
def Gives (held : Option ByteArray) : Emission → String → Prop
  | .whole _ _ text _, given => text = .ok given
  | .merged _ _ markers body fresh anchor indent, given =>
    (held = none ∧ given = fresh) ∨ ∃ content text, held = some content ∧
      Text.Utf8.decode content = .ok text ∧
      given = (Section.merge markers body anchor indent text).2
  | .migration _ text _, given => text = .ok given

end Emission

namespace Schema

/-- Migrations are files of code. -/
theorem exists_stem_of_mem_migrationSuffixes {s : Schema} {suffix : String}
    (mem : suffix ∈ s.migrationSuffixes) : ∃ stem, suffix = stem ++ ".php" := by
  have creation (table : String) : ∃ stem, Artifact.creationSuffix table = stem ++ ".php" :=
    ⟨"_create_" ++ table ++ "_table", by simp [Artifact.creationSuffix, String.append_assoc]⟩
  rcases migrationSuffix_cases mem with rfl | ⟨e, -, rfl⟩ | ⟨name, -, rfl⟩
  · exact ⟨"_modify_users_table", by decide⟩
  · exact creation e.table
  · exact creation name

end Schema

namespace Artifact

/-- When a migration's path leads nowhere up, neither does a pattern of its ending. -/
theorem name_ne_of_migrationPattern {suffix : String} {pattern : Glob}
    (spelled : Glob.ofText (migrationPattern suffix) = .ok pattern) {moment : Moment}
    (down : ".." ∉ namesOf (migrationPath moment suffix)) :
    ∀ name, GlobStep.name name ∈ pattern.steps → name ≠ ".." := by
  obtain ⟨head, others, -, -, names⟩ := exists_namesOf_append suffix
  have starred : namesOf ("*" ++ suffix) = ("*" ++ head) :: others :=
    names "*" (by decide) ⟨'*', by decide, by decide⟩
  have stamped : namesOf (moment.underscored ++ suffix) = (moment.underscored ++ head) :: others :=
    names _ moment.slash_not_mem_underscored ⟨'_', by simp [Moment.underscored], by decide⟩
  rw [Run.migrationPath_eq, namesOf_append, Run.namesOf_migrationNames, stamped] at down
  rw [Run.migrationPattern_eq] at spelled
  obtain ⟨rest, read, steps⟩ := Glob.steps_of_ofText spelled
    ((Project.names_of_pattern (by decide) (by decide) ("*" ++ suffix)).trans
      (by rw [starred])) (by decide)
  intro name mem
  rw [steps, List.mem_append] at mem
  rcases mem with front | back
  · obtain ⟨front', isFront, same⟩ := List.mem_map.1 front
    obtain rfl := GlobStep.name.inj same
    rintro rfl
    exact absurd isFront (by decide)
  · obtain ⟨name', isName, same⟩ := exists_of_mapM_ok read back
    obtain rfl := Glob.stepOf_eq_name same
    rintro rfl
    rcases List.mem_cons.1 isName with here | there
    · have first := congrArg (fun text : String => text.toList.head?) here
      simp at first
    · exact down (List.mem_append_right _ (List.mem_cons_of_mem _ there))

end Artifact

namespace Run

variable {now : Moment} {run after : Run} {kind : ArtifactKind} {path : String}
  {action : FileAction} {metadata : Json.Members}

/-- A text was written to a file, and the file was reported. -/
structure Stored (kind : ArtifactKind) (path : String) (action : FileAction) (given : String)
    (before after : Run) : Prop where
  migrations : after.migrations = before.migrations
  reported : after.report.files = before.report.files ++ [⟨kind.name, path, action, none⟩]
  stands : after.project.Stands path given.toUTF8
  touches : Project.Touches (· = namesOf path) before.project after.project

/-- Recording a file without a failure reports it and leaves the project alone. -/
theorem reported_of_record (h : record now kind path action metadata run = (.ok (), after))
    (clean : isClean after.report = true) :
    after.migrations = run.migrations ∧ after.project = run.project ∧
      after.report.files = run.report.files ++ [⟨kind.name, path, action, none⟩] := by
  unfold record at h
  split at h
  · obtain ⟨-, rfl⟩ := Prod.mk.inj h
    exact ⟨rfl, rfl, rfl⟩
  · obtain ⟨-, rfl⟩ := Prod.mk.inj h
    exact absurd clean (not_isClean_failed _ _ _ _)
  · cases (Prod.mk.inj h).1

theorem stored_of_store {text : String} (named : namesOf path ≠ [])
    (h : store now kind path action text metadata run = (.ok (), after))
    (clean : isClean after.report = true) : Stored kind path action text run after := by
  unfold store at h
  have touched := run.project.touches_write path text.toUTF8
  rw [← Project.writeText] at touched
  cases written : run.project.writeText path text with
  | mk outcome project =>
    rw [written] at h touched
    cases outcome with
    | ok size =>
      dsimp only at h
      obtain ⟨migrations, same, reported⟩ := reported_of_record h clean
      rw [Project.writeText] at written
      exact ⟨migrations, reported, same ▸ Project.stands_of_write named written, same ▸ touched⟩
    | error e =>
      cases e with
      | failure f =>
        obtain ⟨-, rfl⟩ := Prod.mk.inj h
        exact absurd clean (not_isClean_failed _ _ _ _)
      | _ => cases (Prod.mk.inj h).1

theorem stored_of_storeRendered {text : Except Text.NumeralError String} (named : namesOf path ≠ [])
    (h : storeRendered now kind path action text metadata run = (.ok (), after))
    (clean : isClean after.report = true) :
    ∃ given, text = .ok given ∧ Stored kind path action given run after := by
  unfold storeRendered at h
  split at h
  · exact ⟨_, rfl, stored_of_store named h clean⟩
  · obtain ⟨-, rfl⟩ := Prod.mk.inj h
    exact absurd ((Report.isClean_addRenderFailure ..).symm.trans clean) Bool.false_ne_true

/-- A file was made: it stands at its path as it was rendered and is reported, and the files that it
replaces are gone. Nothing else has changed. -/
structure Makes (e : Emission) (path : String) (before after : Run) : Prop where
  named : after.migrations = before.migrations + e.count
  reported : ∃ action : FileAction, action.writes = true ∧
    after.report.files = before.report.files ++ [⟨e.kind.name, path, action, none⟩]
  given : ∃ text, e.Gives (before.project.contentAt (namesOf path)) text ∧
    after.project.Stands path text.toUTF8
  touches : Project.Touches (fun names => names = namesOf path ∨
    e.Drops names) before.project after.project
  dropped : ∀ names, names ≠ namesOf path → e.Drops names → after.project.contentAt names = none

/-- What was stored for a file that replaces no others was made. -/
theorem Stored.makes {e : Emission} {given : String}
    (stored : Stored e.kind path action given run after) (writes : action.writes = true)
    (single : e.count = 0) (keeps : ∀ names, ¬ e.Drops names)
    (gives : e.Gives (run.project.contentAt (namesOf path)) given) :
    Makes e path run after where
  named := by rw [stored.migrations, single, Nat.add_zero]
  reported := ⟨action, writes, stored.reported⟩
  given := ⟨given, gives, stored.stands⟩
  touches := stored.touches.mono fun _ => .inl
  dropped names _ drops := absurd drops (keeps names)

theorem makes_emitWhole {text : Except Text.NumeralError String} (named : namesOf path ≠ [])
    (h : emitWhole now .clean kind path text metadata run = (.ok (), after))
    (clean : isClean after.report = true) :
    Makes (.whole kind path text metadata) path run after := by
  have made {action : FileAction} (writes : action.writes = true)
      (h : storeRendered now kind path action text metadata run = (.ok (), after)) :
      Makes (.whole kind path text metadata) path run after := by
    obtain ⟨given, rendered, stored⟩ := stored_of_storeRendered named h clean
    exact Stored.makes stored writes rfl (fun _ => id) rendered
  unfold emitWhole at h
  split at h
  · cases (Prod.mk.inj h).1
  · rw [if_neg (by decide)] at h
    exact made (by decide) h
  · exact made (by decide) h

theorem makes_emitMerged {markers : Markers} {body : List String} {fresh : String}
    {anchor : Option String} {indent : String} (opened : run.project.IsOpen)
    (named : namesOf path ≠ [])
    (h : emitMerged now kind path markers body fresh anchor indent run = (.ok (), after))
    (clean : isClean after.report = true) :
    Makes (.merged kind path markers body fresh anchor indent) path run after := by
  unfold emitMerged at h
  split at h
  · cases (Prod.mk.inj h).1
  · rename_i absent
    have held := Project.contentAt_of_fileExists opened absent
    exact Stored.makes (stored_of_store named h clean) (by decide) rfl (fun _ => id)
      (.inl ⟨held, rfl⟩)
  · cases reading : run.project.readText path with
    | ok text =>
      rw [reading] at h
      dsimp only at h
      have writes :
        (if (Section.merge markers body anchor indent text).1 = .appended then FileAction.appended
          else .merged).writes = true := by
        split <;> rfl
      obtain ⟨content, held, decoded⟩ := Project.held_of_readText reading
      exact Stored.makes (stored_of_store named h clean) writes rfl (fun _ => id)
        (.inr ⟨content, text, held, decoded, rfl⟩)
    | error e =>
      rw [reading] at h
      cases e with
      | failure f =>
        obtain ⟨-, rfl⟩ := Prod.mk.inj h
        exact absurd clean (not_isClean_failed _ _ _ _)
      | _ => cases (Prod.mk.inj h).1

/-- When files were deleted one after another, they are gone, and no others. -/
theorem cleared_of_deleteAll {paths : List String} (opened : run.project.IsOpen)
    (h : deleteAll kind paths run = (.ok true, after)) :
    after = { run with project := after.project } ∧
      Project.Touches (fun names => ∃ path ∈ paths, namesOf path = names) run.project
        after.project ∧
      ∀ path ∈ paths, after.project.contentAt (namesOf path) = none := by
  induction paths generalizing run with
  | nil =>
    obtain ⟨-, rfl⟩ := Prod.mk.inj h
    exact ⟨rfl, .refl _ _, by simp⟩
  | cons path rest ih =>
    unfold deleteAll at h
    split at h
    · rename_i found project deleted
      have first := Project.touches_delete deleted
      obtain ⟨same, changed, gone⟩ := ih (opened.of_keeps first.same first.keeps) h
      refine ⟨same, (first.mono fun names here => ⟨path, List.mem_cons_self .., here.symm⟩).trans
        (changed.mono fun names ⟨other, mem, here⟩ => ⟨other, List.mem_cons_of_mem _ mem, here⟩),
        ?_⟩
      intro other mem
      by_cases later : ∃ again ∈ rest, namesOf again = namesOf other
      · obtain ⟨again, isLater, names⟩ := later
        rw [← names]
        exact gone again isLater
      · rcases List.mem_cons.1 mem with rfl | mem
        · rw [changed.contents _ later]
          exact Project.contentAt_of_delete opened deleted
        · exact absurd ⟨other, mem, rfl⟩ later
    · cases (Prod.mk.inj h).1
    · cases (Prod.mk.inj h).1

theorem not_isClean_of_deleteAll {paths : List String}
    (h : deleteAll kind paths run = (.ok false, after)) :
    ¬ isClean after.report = true := by
  induction paths generalizing run with
  | nil => cases (Prod.mk.inj h).1
  | cons path rest ih =>
    unfold deleteAll at h
    split at h
    · exact ih h
    · obtain ⟨-, rfl⟩ := Prod.mk.inj h
      exact not_isClean_failed _ _ _ _
    · cases (Prod.mk.inj h).1

/-- Writing a migration without a failure stores it under the next moment. -/
theorem stored_of_writeMigration {suffix : String} {text : Except Text.NumeralError String}
    (h : writeMigration now suffix action text metadata run = (.ok (), after))
    (clean : isClean after.report = true) :
    ∃ moment given between, now.plusSeconds? run.migrations = some moment ∧ text = .ok given ∧
      between.migrations = run.migrations + 1 ∧ between.project = run.project ∧
      between.report = run.report ∧
      Stored .migrations (Artifact.migrationPath moment suffix) action given between after := by
  unfold writeMigration at h
  split at h
  · cases (Prod.mk.inj h).1
  · rename_i forgot forgotten
    obtain ⟨m, left, -, same, -⟩ := forgetCovered_eq_ok forgotten
    split at h
    · cases (Prod.mk.inj h).1
    · rename_i moment next
      have named : namesOf (Artifact.migrationPath moment suffix) ≠ [] := by
        obtain ⟨rest, names⟩ := prefix_migrationPath moment suffix
        rw [← names]
        exact List.cons_ne_nil _ _
      obtain ⟨given, rendered, stored⟩ := stored_of_storeRendered named h clean
      have here := nextMoment_eq_ok next
      rw [same] at here
      exact ⟨moment, given, { forgot with migrations := forgot.migrations + 1 }, here, rendered,
        by rw [same], by rw [same],
        by rw [same], stored⟩

theorem makes_emitMigration {suffix : String} {text : Except Text.NumeralError String}
    (opened : run.project.IsOpen) (php : ∃ stem, suffix = stem ++ ".php")
    (h : emitMigration now .clean suffix text metadata run = (.ok (), after))
    (clean : isClean after.report = true) :
    Makes (.migration suffix text metadata)
      ((Emission.migration suffix text metadata).pathAt now run.migrations) run after := by
  unfold emitMigration at h
  dsimp only at h
  split at h
  · obtain ⟨-, rfl⟩ := Prod.mk.inj h
    exact absurd clean (not_isClean_failed _ _ _ _)
  · cases (Prod.mk.inj h).1
  · rename_i existing searched
    have replaces : ¬ (decide (Mode.clean = Mode.merge) && !existing.isEmpty) = true := by simp
    rw [if_neg replaces] at h
    split at h
    · cases (Prod.mk.inj h).1
    · rename_i between deleted
      obtain ⟨-, rfl⟩ := Prod.mk.inj h
      exact absurd clean (not_isClean_of_deleteAll deleted)
    · rename_i cleared deleted
      obtain ⟨same, changed, gone⟩ := cleared_of_deleteAll opened deleted
      obtain ⟨moment, given, between, next, rendered, named, project, report, stored⟩ :=
        stored_of_writeMigration h clean
      rw [same] at next named report
      have path : (Emission.migration suffix text metadata).pathAt now run.migrations =
          Artifact.migrationPath moment suffix := by
        rw [Emission.pathAt, next]
        rfl
      rw [path]
      obtain ⟨pattern, spelled, -⟩ := Project.disk_glob_of_glob searched
      have down : ".." ∉ namesOf (Artifact.migrationPath moment suffix) := by
        obtain ⟨place, here, -⟩ := stored.stands
        obtain ⟨resolved, resolves, -⟩ := Project.place?_eq_some.1 here
        exact (Project.resolve_eq_ok.1 resolves).2.1
      have files : pattern.directories = false :=
        (Glob.directories_of_ofText spelled).trans (Artifact.endsWith_migrationPattern php)
      have found {names : List String} : (∃ file ∈ existing, namesOf file = names) ↔
          GlobStep.Matches pattern.steps names ∧ (run.project.contentAt names).isSome = true :=
        Project.exists_mem_glob_iff opened spelled
          (Artifact.name_ne_of_migrationPattern spelled down) files searched
      refine ⟨?_, ?_, ⟨given, rendered, stored.stands⟩, ?_, ?_⟩
      · rw [stored.migrations, named]
        rfl
      · refine ⟨_, ?_, report ▸ stored.reported⟩
        split <;> rfl
      · have dropped : Project.Touches (Emission.migration suffix text metadata).Drops run.project
          cleared.project :=
          changed.mono fun names isFound => ⟨pattern, spelled, (found.1 isFound).1⟩
        exact (dropped.mono fun _ => .inr).trans ((project ▸ stored.touches).mono fun _ => .inl)
      · rintro names apart ⟨other, spelled', matching⟩
        obtain rfl := Except.ok.inj (spelled.symm.trans spelled')
        rw [stored.touches.contents names apart, project]
        by_cases held : ∃ file ∈ existing, namesOf file = names
        · obtain ⟨file, mem, rfl⟩ := held
          exact gone file mem
        · rw [changed.contents names held]
          have absent := fun isSome => held (found.2 ⟨matching, isSome⟩)
          simpa using absent

end Run
end Scaffold
