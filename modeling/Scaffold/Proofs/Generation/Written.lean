import Scaffold.Proofs.Generation.Completing
import Scaffold.Proofs.Generation.Stranding

/-!
# The files that a run writes

`Run.filesWritten` lists what a run writes while it makes its files, in that order, whether it can
record it afterwards or not. What is listed stands on the disk from then on, until a later file of
the run is made in its place; nothing else turns up where generated files stand; and the report
tells of nothing else as written: `Generation.comeTo_of_notes`.
-/

namespace Scaffold
set_option autoImplicit false

open Text (NumeralError)

namespace Emission

/-- Where a file may be made. A migration has some moment in its name. -/
def IsPath : Emission → String → Prop
  | .whole _ path _ _, other => other = path
  | .merged _ path _ _ _ _ _, other => other = path
  | .migration suffix _ _, other => ∃ moment, other = Artifact.migrationPath moment suffix

theorem touched_of_isPath {e : Emission} {path : String} (h : e.IsPath path) :
    e.Touched (namesOf path) := by
  cases e with
  | whole kind path' text metadata => exact congrArg namesOf h
  | merged kind path' markers body fresh anchor indent => exact congrArg namesOf h
  | migration suffix text metadata =>
    obtain ⟨moment, rfl⟩ := h
    exact Run.prefix_migrationPath moment suffix

end Emission

/-- A file that a run has written, and what it was made from. -/
structure FileWritten where
  emission : Emission
  path : String
  text : String

namespace FileWritten

def kind (file : FileWritten) : ArtifactKind := file.emission.kind

/-- The paths of the migrations among files. -/
def migrations (files : List FileWritten) : List String :=
  (files.filter (·.kind = .migrations)).map (·.path)

theorem migrations_append (front back : List FileWritten) :
    migrations (front ++ back) = migrations front ++ migrations back := by
  simp [migrations]

end FileWritten

namespace Report

/-- The files that a report tells of as written, by their kinds and paths. -/
def written (report : Report) : List (String × String) :=
  (report.files.filter fun f => f.action.writes && f.isSuccess).map fun f => (f.kind, f.path)

variable {report : Report} {kind path : String}

theorem written_addFile (kind path : String) (action : FileAction) :
    (report.addFile kind path action).written =
      report.written ++ if action.writes then [(kind, path)] else [] := by
  simp only [written, addFile, List.filter_append, List.map_append, List.filter_cons,
    List.filter_nil, FileResult.isSuccess, Option.isNone_none, Bool.and_true]
  split <;> rfl

theorem written_addIOFailure (kind path : String) (action : FileAction) (f : IOFailure) :
    (report.addIOFailure kind path action f).written = report.written := by
  simp [written, addIOFailure, FileResult.isSuccess]

theorem written_addRenderFailure (kind path : String) (action : FileAction) (e : NumeralError) :
    (report.addRenderFailure kind path action e).written = report.written := by
  simp [written, addRenderFailure, FileResult.isSuccess]

end Report

namespace Run

/-- What comes on the disk when a file is to be written: its path and its text, if this can be
rendered and the disk takes it. -/
def stored? (path : String) (text : Except NumeralError String) (run : Run) :
    Option (String × String) :=
  match text with
  | .error _ => none
  | .ok text =>
    match (run.project.writeText path text).1 with
    | .ok _ => some (path, text)
    | .error _ => none

/-- What comes on the disk when a whole file is made. -/
def storedWhole? (mode : Mode) (path : String) (text : Except NumeralError String) (run : Run) :
    Option (String × String) :=
  match run.project.fileExists path with
  | .error _ => none
  | .ok true => if mode = .merge then none else run.stored? path text
  | .ok false => run.stored? path text

/-- What comes on the disk when a section is merged. -/
def storedMerged? (path : String) (markers : Markers) (body : List String) (fresh : String)
    (anchor : Option String) (indent : String) (run : Run) : Option (String × String) :=
  match run.project.fileExists path with
  | .error _ => none
  | .ok false => run.stored? path (.ok fresh)
  | .ok true =>
    match run.project.readText path with
    | .ok text => run.stored? path (.ok (Section.merge markers body anchor indent text).2)
    | .error _ => none

/-- What comes on the disk when a migration is written in place of those that are gone. -/
def storedMigration? (now : Moment) (suffix : String) (text : Except NumeralError String)
    (run : Run) : Option (String × String) :=
  match forgetCovered (Artifact.migrationPattern suffix) run with
  | .error _ => none
  | .ok ready =>
    match nextMoment now ready with
    | .error _ => none
    | .ok moment => ready.stored? (Artifact.migrationPath moment suffix) text

/-- What comes on the disk when a file is made: its path and its text. -/
def writes? (now : Moment) (mode : Mode) (run : Run) : Emission → Option (String × String)
  | .whole _ path text _ => run.storedWhole? mode path text
  | .merged _ path markers body fresh anchor indent =>
    run.storedMerged? path markers body fresh anchor indent
  | .migration suffix text _ =>
    match run.project.glob (Artifact.migrationPattern suffix) with
    | .error _ => none
    | .ok existing =>
      if mode = .merge && !existing.isEmpty then none
      else
        match deleteAll .migrations existing run with
        | (.ok true, cleared) => cleared.storedMigration? now suffix text
        | (.ok false, _) | (.error _, _) => none

/-- The files that a run writes as it makes files one after another, up to the one that stops it. -/
def filesWritten (now : Moment) (mode : Mode) : List Emission → Run → List FileWritten
  | [], _ => []
  | e :: rest, run =>
    ((run.writes? now mode e).map fun (path, text) => ⟨e, path, text⟩).toList ++
      match emit now mode run e with
      | (.ok (), between) => filesWritten now mode rest between
      | (.error _, _) => []

/-- What making a file comes to: one file is written or none, others may only go, and no more is
told of as written than was. -/
inductive Lays (kind : ArtifactKind) (before after : Run) : Option (String × String) → Prop where
  | nothing (gone : Project.Shrinks before.project after.project)
      (told : after.report.written = before.report.written) :
      Lays kind before after none
  | file {path text : String} {ready : Project} {size : Nat}
      (gone : Project.Shrinks before.project ready)
      (stored : ready.writeText path text = (.ok size, after.project))
      (told : after.report.written = before.report.written ∨
        after.report.written = before.report.written ++ [(kind.name, path)]) :
      Lays kind before after (some (path, text))

variable {now : Moment} {mode : Mode} {run : Run} {kind : ArtifactKind} {path : String}
  {action : FileAction} {metadata : Json.Members} {o : Option (String × String)}

/-- Files may go before. -/
theorem Lays.of_shrinks {a b c : Run} (gone : Project.Shrinks a.project b.project)
    (told : b.report.written = a.report.written) (h : Lays kind b c o) : Lays kind a c o := by
  cases h with
  | nothing gone' told' => exact .nothing (gone.trans gone') (told'.trans told)
  | file gone' stored told' => exact .file (gone.trans gone') stored (told ▸ told')

theorem Lays.refl (kind : ArtifactKind) (run : Run) : Lays kind run run none :=
  .nothing (.refl _) rfl

theorem lays_failed (kind : ArtifactKind) (path : String) (action : FileAction) (f : IOFailure) :
    Lays kind run (run.log (·.addIOFailure kind.name path action f)) none :=
  .nothing (.refl _) (Report.written_addIOFailure ..)

/-- Recording a file leaves the project alone, and tells of it as written if the action says so. -/
theorem told_record (now : Moment) (kind : ArtifactKind) (path : String) (action : FileAction)
    (metadata : Json.Members) (run : Run) :
    (record now kind path action metadata run).2.project = run.project ∧
      ((record now kind path action metadata run).2.report.written = run.report.written ∨
        action.writes = true ∧
          (record now kind path action metadata run).2.report.written = run.report.written ++
            [(kind.name, path)]) := by
  unfold record
  split
  · refine ⟨rfl, ?_⟩
    cases writes : action.writes with
    | true => exact .inr ⟨rfl, (Report.written_addFile ..).trans (by rw [writes, if_pos rfl])⟩
    | false => exact .inl ((Report.written_addFile ..).trans (by simp [writes]))
  · exact ⟨rfl, .inl (Report.written_addIOFailure ..)⟩
  · exact ⟨rfl, .inl rfl⟩

/-- A file that is kept is not written. -/
theorem lays_skipped (now : Moment) (kind : ArtifactKind) (path : String)
    (metadata : Json.Members) (run : Run) :
    Lays kind run (record now kind path .skipped metadata run).2 none := by
  obtain ⟨same, told⟩ := told_record now kind path .skipped metadata run
  refine .nothing (same ▸ .refl _) (told.resolve_right ?_)
  rintro ⟨writes, -⟩
  cases writes

theorem lays_store (now : Moment) (kind : ArtifactKind) (path : String) (action : FileAction)
    (text : String) (metadata : Json.Members) (run : Run) :
    Lays kind run (store now kind path action text metadata run).2
      (run.stored? path (.ok text)) := by
  unfold store stored?
  cases stored : run.project.writeText path text with
  | mk outcome project =>
    dsimp only
    rw [stored]
    cases outcome with
    | ok size =>
      obtain ⟨same, told⟩ := told_record now kind path action metadata { run with project }
      exact .file (.refl _) (stored.trans (by rw [same])) (told.imp_right (·.2))
    | error cause =>
      have gone : Project.Shrinks run.project project :=
        (Project.touches_write_of_error stored).shrinks
      cases cause with
      | failure f => exact .nothing gone (Report.written_addIOFailure ..)
      | _ => exact .nothing gone rfl

theorem lays_storeRendered (now : Moment) (kind : ArtifactKind) (path : String)
    (action : FileAction) (text : Except NumeralError String)
    (metadata : Json.Members) (run : Run) :
    Lays kind run (storeRendered now kind path action text metadata run).2
      (run.stored? path text) := by
  cases text with
  | ok text => exact lays_store now kind path action text metadata run
  | error e => exact .nothing (.refl _) (Report.written_addRenderFailure ..)

theorem lays_emitWhole (now : Moment) (mode : Mode) (kind : ArtifactKind) (path : String)
    (text : Except NumeralError String) (metadata : Json.Members) (run : Run) :
    Lays kind run (emitWhole now mode kind path text metadata run).2
      (run.storedWhole? mode path text) := by
  unfold emitWhole storedWhole?
  cases run.project.fileExists path with
  | error cause => exact .refl kind run
  | ok there =>
    cases there with
    | true =>
      dsimp only
      split
      · exact lays_skipped now kind path metadata run
      · exact lays_storeRendered ..
    | false => exact lays_storeRendered ..

theorem lays_emitMerged (now : Moment) (kind : ArtifactKind) (path : String) (markers : Markers)
    (body : List String) (fresh : String) (anchor : Option String) (indent : String) (run : Run) :
    Lays kind run (emitMerged now kind path markers body fresh anchor indent run).2
      (run.storedMerged? path markers body fresh anchor indent) := by
  unfold emitMerged storedMerged?
  cases run.project.fileExists path with
  | error cause => exact .refl kind run
  | ok there =>
    cases there with
    | false => exact lays_store ..
    | true =>
      dsimp only
      cases run.project.readText path with
      | ok text => exact lays_store ..
      | error cause =>
        cases cause with
        | failure f => exact lays_failed kind path .merged f
        | _ => exact .refl kind run

theorem lays_recordAll (now : Moment) (kind : ArtifactKind) (metadata : Json.Members)
    (paths : List String) (run : Run) :
    Lays kind run (recordAll now kind metadata paths run).2 none := by
  induction paths generalizing run with
  | nil => exact .refl kind run
  | cons path rest ih =>
    have first := lays_skipped now kind path metadata run
    unfold recordAll
    cases recorded : record now kind path .skipped metadata run with
    | mk outcome between =>
      rw [recorded] at first
      cases outcome with
      | ok _ =>
        cases first with
        | nothing gone told => exact (ih between).of_shrinks gone told
      | error cause => exact first

theorem lays_deleteAll (kind : ArtifactKind) (paths : List String) (run : Run) :
    Lays kind run (deleteAll kind paths run).2 none := by
  induction paths generalizing run with
  | nil => exact .refl kind run
  | cons path rest ih =>
    unfold deleteAll
    split
    · rename_i found project deleted
      exact .of_shrinks (b := { run with project }) (Project.shrinks_delete deleted) rfl (ih _)
    · exact lays_failed kind path .deleted _
    · exact .refl kind run

theorem lays_writeMigration (now : Moment) (suffix : String) (action : FileAction)
    (text : Except NumeralError String) (metadata : Json.Members) (run : Run) :
    Lays .migrations run (writeMigration now suffix action text metadata run).2
      (run.storedMigration? now suffix text) := by
  unfold writeMigration storedMigration?
  cases forgotten : forgetCovered (Artifact.migrationPattern suffix) run with
  | error cause => exact .refl _ run
  | ok ready =>
    obtain ⟨_, _, -, same, -⟩ := forgetCovered_eq_ok forgotten
    have gone : Project.Shrinks run.project ready.project := by rw [same]; exact .refl _
    have told : ready.report.written = run.report.written := by rw [same]
    dsimp only
    cases nextMoment now ready with
    | error cause => exact .nothing gone told
    | ok moment =>
      exact .of_shrinks (b := { ready with migrations := ready.migrations + 1 }) gone told
        (lays_storeRendered ..)

/-- Making a file comes to writing what is on the disk then. -/
theorem lays_emit (now : Moment) (mode : Mode) (run : Run) (e : Emission) :
    Lays e.kind run (emit now mode run e).2 (run.writes? now mode e) := by
  cases e with
  | whole kind path text metadata => exact lays_emitWhole now mode kind path text metadata run
  | merged kind path markers body fresh anchor indent =>
    exact lays_emitMerged now kind path markers body fresh anchor indent run
  | migration suffix text metadata =>
    dsimp only [emit, emitMigration, writes?]
    cases searched : run.project.glob (Artifact.migrationPattern suffix) with
    | error cause =>
      cases cause with
      | failure f => exact lays_failed .migrations _ .created f
      | _ => exact .refl _ run
    | ok existing =>
      dsimp only
      split
      · exact lays_recordAll now .migrations metadata existing run
      · have cleared := lays_deleteAll .migrations existing run
        cases deletion : deleteAll .migrations existing run with
        | mk outcome between =>
          rw [deletion] at cleared
          cases outcome with
          | error cause => exact cleared
          | ok all =>
            cases all with
            | false => exact cleared
            | true =>
              cases cleared with
              | nothing gone told => exact (lays_writeMigration ..).of_shrinks gone told

/-- A file that is written is the one that was to be written, with the text that it was to have. -/
theorem stored?_eq_some {path' given : String} {text : Except NumeralError String}
    (h : run.stored? path text = some (path', given)) :
    path' = path ∧ text = .ok given := by
  unfold stored? at h
  split at h
  · cases h
  · split at h
    · obtain ⟨rfl, rfl⟩ := Prod.mk.inj (Option.some.inj h)
      exact ⟨rfl, rfl⟩
    · cases h

theorem storedWhole?_eq_some {path' given : String} {text : Except NumeralError String}
    (h : run.storedWhole? mode path text = some (path', given)) :
    path' = path ∧ text = .ok given := by
  unfold storedWhole? at h
  split at h
  · cases h
  · split at h
    · cases h
    · exact stored?_eq_some h
  · exact stored?_eq_some h

/-- What is written is at a path of the file, with a text that it is given. -/
theorem given_of_writes? {e : Emission} {text : String}
    (h : run.writes? now mode e = some (path, text)) :
    e.IsPath path ∧ ∃ held, e.Gives held text := by
  cases e with
  | whole kind path' text' metadata =>
    obtain ⟨same, given⟩ := storedWhole?_eq_some h
    exact ⟨same, none, given⟩
  | merged kind path' markers body fresh anchor indent =>
    dsimp only [writes?] at h
    unfold storedMerged? at h
    split at h
    · cases h
    · obtain ⟨same, given⟩ := stored?_eq_some h
      exact ⟨same, none, .inl ⟨rfl, (Except.ok.inj given).symm⟩⟩
    · split at h
      · rename_i read
        obtain ⟨same, given⟩ := stored?_eq_some h
        obtain ⟨content, -, decoded⟩ := Project.held_of_readText read
        exact ⟨same, some content, .inr ⟨content, _, rfl, decoded, (Except.ok.inj given).symm⟩⟩
      · cases h
  | migration suffix text' metadata =>
    dsimp only [writes?] at h
    split at h
    · cases h
    · split at h
      · cases h
      · split at h
        · unfold storedMigration? at h
          split at h
          · cases h
          · split at h
            · cases h
            · obtain ⟨same, given⟩ := stored?_eq_some h
              exact ⟨⟨_, same⟩, none, given⟩
        · cases h
        · cases h

section
variable {before after : Run} {text : String}

/-- What was written is there. -/
theorem Lays.contentAt (h : Lays kind before after (some (path, text)))
    (named : namesOf path ≠ []) : after.project.contentAt (namesOf path) = some text.toUTF8 := by
  cases h with
  | file gone stored told => exact (Project.stands_of_write named stored).contentAt

/-- What is there and was not before was written. -/
theorem Lays.new (h : Lays kind before after o) (named : ∀ file ∈ o, namesOf file.1 ≠ [])
    {names : List String} {content : ByteArray}
    (there : after.project.contentAt names = some content) :
    before.project.contentAt names = some content ∨
      ∃ path text, o = some (path, text) ∧ namesOf path = names ∧ text.toUTF8 = content := by
  cases h with
  | nothing gone told =>
    rcases gone.contents names with kept | lost
    · exact .inl (kept ▸ there)
    · cases (lost.symm.trans there)
  | @file path text ready size gone stored told =>
    by_cases here : namesOf path = names
    · have written := (Project.stands_of_write (named _ rfl) stored).contentAt
      exact .inr ⟨path, text, rfl, here, Option.some.inj (written.symm.trans (here ▸ there))⟩
    · have touched := ready.touches_write path text.toUTF8
      rw [← Project.writeText, stored] at touched
      rw [touched.contents names (Ne.symm here)] at there
      rcases gone.contents names with kept | lost
      · exact .inl (kept ▸ there)
      · cases (lost.symm.trans there)

/-- What is told of as written was written. -/
theorem Lays.told (h : Lays kind before after o) :
    ∃ told, after.report.written = before.report.written ++ told ∧
    told.Sublist (o.toList.map fun file => (kind.name, file.1)) := by
  cases h with
  | nothing gone told => exact ⟨[], by rw [told, List.append_nil], List.nil_sublist _⟩
  | file gone stored told =>
    rcases told with same | one
    · exact ⟨[], by rw [same, List.append_nil], List.nil_sublist _⟩
    · exact ⟨_, one, .refl _⟩

end

end Run

/-- Files were made one after another, and these were written. They are in the order in which they
were to be made, and they are there with their texts where no later file is made in their place.
Nothing else that is there is new, and nothing else is told of as written. -/
structure Emission.ComeTo (now : Moment) (emissions : List Emission) (before after : Project)
    (told : List (String × String)) (written : List FileWritten) : Prop where
  order : (written.map (·.emission)).Sublist emissions
  given : ∀ f ∈ written, f.emission.IsPath f.path ∧ ∃ held, f.emission.Gives held f.text
  lasts : ∀ f ∈ written, ∃ front later, emissions = front ++ f.emission :: later ∧
    ((∀ e ∈ later, ¬ e.Alters now (namesOf f.path)) →
      after.contentAt (namesOf f.path) = some f.text.toUTF8)
  new : ∀ names, Schema.IsBelowRoots names → ∀ content, after.contentAt names = some content →
    before.contentAt names = some content ∨
      ∃ f ∈ written, namesOf f.path = names ∧ f.text.toUTF8 = content
  told : told.Sublist (written.map fun f => (f.kind.name, f.path))

namespace Emission.ComeTo

variable {now : Moment} {front back emissions : List Emission} {a b c : Project}
  {told told' : List (String × String)} {written written' : List FileWritten}

/-- Where nothing was made, nothing was written. -/
theorem idle (now : Moment) (emissions : List Emission) (p : Project) :
    Emission.ComeTo now emissions p p [] [] where
  order := List.nil_sublist _
  given _ mem := absurd mem List.not_mem_nil
  lasts _ mem := absurd mem List.not_mem_nil
  new _ _ _ there := .inl there
  told := .slnil

/-- Files are made, and then others. -/
theorem append (first : Emission.ComeTo now front a b told written)
    (second : Emission.ComeTo now back b c told' written')
    (changed : Project.Touches (fun names => ∃ e ∈ back, e.Alters now names) b c) :
    Emission.ComeTo now (front ++ back) a c (told ++ told') (written ++ written') where
  order := by
    rw [List.map_append]
    exact first.order.append second.order
  given f mem := (List.mem_append.1 mem).elim (first.given f) (second.given f)
  lasts f mem := by
    rcases List.mem_append.1 mem with mem | mem
    · obtain ⟨start, later, eq, lasts⟩ := first.lasts f mem
      refine ⟨start, later ++ back,
        by rw [eq, List.append_assoc, List.cons_append], fun spared => ?_⟩
      obtain ⟨own, others⟩ := List.forall_mem_append.1 spared
      rw [changed.contents _ fun ⟨e, mem, alters⟩ => others e mem alters]
      exact lasts own
    · obtain ⟨start, later, eq, lasts⟩ := second.lasts f mem
      exact ⟨front ++ start, later, by rw [eq, List.append_assoc], lasts⟩
  new names below content there := by
    rcases second.new names below content there with kept | ⟨f, mem, own⟩
    · rcases first.new names below content kept with kept | ⟨f, mem, own⟩
      · exact .inl kept
      · exact .inr ⟨f, List.mem_append_left _ mem, own⟩
    · exact .inr ⟨f, List.mem_append_right _ mem, own⟩
  told := by
    rw [List.map_append]
    exact first.told.append second.told

/-- Before files are made others may go, and afterwards they are left alone. -/
theorem of_kept (h : Emission.ComeTo now emissions b c told written)
    (below : ∀ e ∈ emissions, ∀ names, e.Touched names → Schema.IsBelowRoots names)
    {p after : Project} (gone : ∀ names, Schema.IsBelowRoots names →
      b.contentAt names = p.contentAt names ∨ b.contentAt names = none)
    (kept : ∀ names, Schema.IsBelowRoots names → after.contentAt names = c.contentAt names) :
    Emission.ComeTo now emissions p after told written where
  order := h.order
  given := h.given
  lasts f mem := by
    obtain ⟨front, later, eq, lasts⟩ := h.lasts f mem
    refine ⟨front, later, eq, fun spared => ?_⟩
    have isMade : f.emission ∈ emissions := by simp [eq]
    rw [kept _ (below f.emission isMade _ (Emission.touched_of_isPath (h.given f mem).1))]
    exact lasts spared
  new names below content there := by
    rw [kept names below] at there
    refine (h.new names below content there).imp_left fun held => ?_
    rcases gone names below with same | lost
    · exact same ▸ held
    · cases (lost.symm.trans held)
  told := h.told

end Emission.ComeTo

namespace Run

variable {now : Moment} {mode : Mode} {run : Run} {emissions : List Emission}

/-- A file that a run writes is there when it is made, whatever comes of its record. -/
theorem comeTo_emit {e : Emission}
    (below : ∀ names, e.Touched names → Schema.IsBelowRoots names) (run : Run) :
    ∃ told, (emit now mode run e).2.report.written = run.report.written ++ told ∧
      Emission.ComeTo now [e] run.project (emit now mode run e).2.project told
        ((run.writes? now mode e).map fun (path, text) =>
          (⟨e, path, text⟩ : FileWritten)).toList := by
  have lays := lays_emit now mode run e
  have named : ∀ file ∈ run.writes? now mode e, namesOf file.1 ≠ [] := by
    intro file written
    obtain ⟨_, -, _, eq⟩ := below _ (Emission.touched_of_isPath (given_of_writes? written).1)
    exact eq ▸ List.cons_ne_nil _ _
  obtain ⟨told, noted, among⟩ := lays.told
  refine ⟨told, noted, ?_⟩
  cases written : run.writes? now mode e with
  | none =>
    rw [written] at lays named among
    refine ⟨List.nil_sublist _, fun _ mem => absurd mem List.not_mem_nil,
      fun _ mem => absurd mem List.not_mem_nil, fun names _ content there => ?_, among⟩
    refine (lays.new named there).imp_right ?_
    rintro ⟨path, text, other, -⟩
    cases other
  | some file =>
    obtain ⟨path, text⟩ := file
    rw [written] at lays named among
    refine ⟨.refl _, fun f mem => ?_, fun f mem => ?_, fun names _ content there => ?_, among⟩
    · obtain rfl := List.mem_singleton.1 mem
      exact given_of_writes? written
    · obtain rfl := List.mem_singleton.1 mem
      exact ⟨[], [], rfl, fun _ => lays.contentAt (named _ rfl)⟩
    · refine (lays.new named there).imp_right ?_
      rintro ⟨path', text', same, own⟩
      obtain ⟨rfl, rfl⟩ := Prod.mk.inj (Option.some.inj same)
      exact ⟨_, List.mem_singleton.2 rfl, own⟩

/-- So is it when files are made one after another, up to the one that stops the run. -/
theorem comeTo_emitAll
    (below : ∀ e ∈ emissions, ∀ names, e.Touched names → Schema.IsBelowRoots names) (run : Run) :
    ∃ told, (emitAll now mode emissions run).2.report.written = run.report.written ++ told ∧
      Emission.ComeTo now emissions run.project (emitAll now mode emissions run).2.project told
        (filesWritten now mode emissions run) := by
  induction emissions generalizing run with
  | nil => exact ⟨[], by simp [emitAll], .idle now [] run.project⟩
  | cons e rest ih =>
    obtain ⟨told, noted, first⟩ := @comeTo_emit now mode e (below e (List.mem_cons_self ..)) run
    unfold emitAll filesWritten
    cases made : emit now mode run e with
    | mk outcome between =>
      rw [made] at noted first
      cases outcome with
      | error cause =>
        refine ⟨told, noted, ?_⟩
        have all := first.append (.idle now rest between.project) (.refl _ _)
        rwa [List.append_nil] at all
      | ok _ =>
        obtain ⟨others, noted', further⟩ :=
          ih (fun e mem => below e (List.mem_cons_of_mem _ mem)) between
        have changes :
            Changes now (fun names => ∃ e ∈ rest, e.Alters now names) (fun _ => True) between
            (emitAll now mode rest between).2 :=
          altered_emitAll (fun e mem names alters => ⟨e, mem, alters⟩) fun _ _ _ _ => trivial
        refine ⟨told ++ others, by rw [noted', noted, List.append_assoc], ?_⟩
        exact first.append further changes.moved.project

/-! ## From the plan on -/

variable {options : Options} {s : Schema} {p : Project} {m : Manifest} {start : Report}

/-- The files that a run writes when it carries out its plan. -/
def carriedOut (now : Moment) (options : Options) (s : Schema) (run : Run) : List FileWritten :=
  match prepare options s run with
  | (.error _, _) => []
  | (.ok (), ready) =>
    filesWritten now options.mode (Emission.ofSchema s options s.dependencyOrder) ready

theorem written_cleanUp (run : Run) : (cleanUp run).2.report.written = run.report.written := by
  have deleted (m : Manifest) (paths : List String) : ∀ report : Report,
      (paths.foldl (fun report path =>
        report.addFile ((kindOf? m path).getD ArtifactKind.migrations.name) path .deleted)
        report).written = report.written := by
    induction paths with
    | nil => exact fun _ => rfl
    | cons path rest ih =>
      exact fun report =>
        (ih _).trans ((Report.written_addFile ..).trans (by simp [FileAction.writes]))
  have failed (m : Manifest) (failures : List IOFailure) : ∀ report : Report,
      (failures.foldl (fun report f =>
        report.addIOFailure ((kindOf? m f.path).getD "obsolete") f.path .deleted f)
        report).written = report.written := by
    induction failures with
    | nil => exact fun _ => rfl
    | cons f rest ih => exact fun report => (ih _).trans (Report.written_addIOFailure ..)
  unfold cleanUp
  split
  · rfl
  · split
    · exact (failed ..).trans (deleted ..)
    · rfl

theorem written_updateEnvironment (s : Schema) (run : Run) :
    (updateEnvironment s run).2.report.written = run.report.written := by
  unfold updateEnvironment
  dsimp only
  split
  · rfl
  · split <;> rfl

/-- What is there when a run comes to its files, or is stopped before: files have gone, the
environment may be set, no migration has a name, and no file was told of as written. -/
structure Prepared (p : Project) (start : Report) (ready : Run) : Prop where
  project : ∃ cleaned, Project.Shrinks p cleaned ∧
    Project.Touches (· = namesOf envPath) cleaned ready.project
  unnamed : ready.migrations = 0
  told : ready.report.written = start.written

theorem prepared_prepare (options : Options) (s : Schema) (p : Project) (m : Manifest)
    (start : Report) : Prepared p start (prepare options s (planned options s p m start)).2 := by
  have shrinks := (shrinks_cleanUp options s p m start).1
  have unnamed := migrations_cleanUp (planned options s p m start)
  have told := written_cleanUp (planned options s p m start)
  unfold prepare
  cases cleaning : cleanUp (planned options s p m start) with
  | mk outcome between =>
    rw [cleaning] at shrinks unnamed told
    cases outcome with
    | error cause => exact ⟨⟨_, shrinks, .refl _ _⟩, unnamed, told⟩
    | ok _ =>
      have left : Project.Touches (· = namesOf envPath) between.project
            (if options.writeEnv then updateEnvironment s between
              else (.ok (), between)).2.project ∧
          (if options.writeEnv then updateEnvironment s between
            else (.ok (), between)).2.migrations = between.migrations ∧
          (if options.writeEnv then updateEnvironment s between
            else (.ok (), between)).2.report.written = between.report.written := by
        split
        · exact ⟨(moved_updateEnvironment s between).project,
            migrations_updateEnvironment s between, written_updateEnvironment s between⟩
        · exact ⟨.refl _ _, rfl, rfl⟩
      dsimp only
      cases setting :
          (if options.writeEnv then updateEnvironment s between else (.ok (), between)) with
      | mk outcome begun =>
        rw [setting] at left
        obtain ⟨changed, kept, same⟩ := left
        cases outcome with
        | error cause => exact ⟨⟨_, shrinks, changed⟩, kept.trans unnamed, same.trans told⟩
        | ok _ => exact ⟨⟨_, shrinks, changed⟩, kept.trans unnamed, same.trans told⟩

/-- Up to its files a run makes none where generated files stand. -/
theorem Prepared.gone {ready : Run} (h : Prepared p start ready) {names : List String}
    (below : Schema.IsBelowRoots names) :
    ready.project.contentAt names = p.contentAt names ∨
      ready.project.contentAt names = none := by
  obtain ⟨cleaned, shrinks, changed⟩ := h.project
  have apart : ¬ names = namesOf envPath := by
    obtain ⟨root, isRoot, rest, rfl⟩ := below
    intro same
    obtain ⟨rfl, -⟩ := List.cons.inj (same.trans (by decide : namesOf envPath = [".env"]))
    exact absurd isRoot (by decide)
  rw [changed.contents names apart]
  exact shrinks.contents names

theorem Prepared.whole {ready : Run} (h : Prepared p start ready) :
    ready.project.whole = p.whole := by
  obtain ⟨cleaned, shrinks, changed⟩ := h.project
  rw [changed.same, shrinks.same]

/-- The last step leaves generated files alone, and tells of none. -/
theorem kept_saveManifest {made : Run}
    (making : makeFiles now options s (planned options s p m start) = (.ok (), made)) :
    (saveManifest now options made).2.report.written = made.report.written ∧
      ∀ names, Schema.IsBelowRoots names → (saveManifest now options made).2.project.contentAt
        names = made.project.contentAt names := by
  constructor
  · unfold saveManifest
    dsimp only
    split <;> rfl
  · intro names below
    obtain ⟨-, -, schema, store, tracked, known, -⟩ := spares_of_makeFiles making
    rcases @saved_of_saveManifest now options made tracked s known schema store with
      untouched | ⟨saved, done, entered⟩
    · exact untouched.contents names not_false
    · have written :=
        Store.touches_save ({} : Store)
          (toSave now s (isClean made.report && options.only.isEmpty) tracked) made.project
      rw [done] at written
      rw [entered.contents names below.apart.2]
      exact written.contents names fun same => below.apart.1 (same.trans Store.namesOf_manifestPath)

/-- The step that makes the files leaves them as they are made, and notes itself. -/
theorem left_generateFiles (now : Moment) (mode : Mode) (emissions : List Emission) (run : Run) :
    (generateFiles now mode emissions run).2.project = (emitAll now mode emissions run).2.project ∧
      (generateFiles now mode emissions run).2.report.written =
        (emitAll now mode emissions run).2.report.written := by
  unfold generateFiles
  dsimp only
  split
  · rename_i eq
    rw [eq]
    exact ⟨rfl, rfl⟩
  · exact ⟨rfl, rfl⟩

theorem below_of_mem_ofSchema (s : Schema) (options : Options) :
    ∀ e ∈ Emission.ofSchema s options s.dependencyOrder,
    ∀ names, e.Touched names → Schema.IsBelowRoots names :=
  fun _ mem _ touched => Emission.root_of_touched mem touched

/-- Up to its last step a run accounts for the files that it writes. -/
theorem comeTo_makeFiles (fresh : start.files = []) :
    Emission.ComeTo now (Emission.ofSchema s options s.dependencyOrder) p
      (makeFiles now options s (planned options s p m start)).2.project
      (makeFiles now options s (planned options s p m start)).2.report.written
      (carriedOut now options s (planned options s p m start)) := by
  have unwritten : start.written = [] := by simp [Report.written, fresh]
  have prepared := prepared_prepare options s p m start
  have below := below_of_mem_ofSchema s options
  rw [makeFiles_eq]
  unfold carriedOut
  cases preparing : prepare options s (planned options s p m start) with
  | mk outcome ready =>
    rw [preparing] at prepared
    have told : ready.report.written = [] := prepared.told.trans unwritten
    cases outcome with
    | error cause =>
      rw [told]
      exact (Emission.ComeTo.idle now _ ready.project).of_kept below (fun _ => prepared.gone)
        fun _ _ => rfl
    | ok _ =>
      obtain ⟨others, noted, all⟩ := @comeTo_emitAll now options.mode _ below ready
      obtain ⟨same, same'⟩ :=
        left_generateFiles now options.mode (Emission.ofSchema s options s.dependencyOrder) ready
      rw [told, List.nil_append] at noted
      rw [same', noted]
      exact all.of_kept below (fun _ => prepared.gone) fun names _ => by rw [same]

/-- A run that carries out its plan accounts for the files that it writes, to its end or to where it
is stopped. -/
theorem comeTo_apply (fresh : start.files = []) :
    Emission.ComeTo now (Emission.ofSchema s options s.dependencyOrder) p
      (apply now options s (planned options s p m start)).2.project
      (apply now options s (planned options s p m start)).2.report.written
      (carriedOut now options s (planned options s p m start)) := by
  have made := @comeTo_makeFiles now options s p m start fresh
  unfold apply
  cases making : makeFiles now options s (planned options s p m start) with
  | mk outcome run =>
    rw [making] at made
    cases outcome with
    | error cause => exact made
    | ok _ =>
      obtain ⟨told, kept⟩ := @kept_saveManifest now options s p m start run making
      dsimp only
      rw [told]
      exact made.of_kept (below_of_mem_ofSchema s options) (fun _ _ => .inl rfl) kept

end Run

namespace Generation

variable {now : Moment} {options : Options} {s : Schema} {p after : Project} {report : Report}
  {written : List FileWritten}

/-- What a run comes to, at its end or where it is stopped, and the files that it has written: it
leaves the project as it was, or it carries out its plan. -/
inductive Notes (now : Moment) (options : Options) (s : Schema) (p : Project) (report : Report)
    (after : Project) (written : List FileWritten) : Prop where
  | idle (files : report.files = []) (left : after = p) (unwritten : written = [])
  | applied (m : Manifest) (start : Report) (outcome : Except Interruption Unit) (run : Run)
      (loads : ({} : Store).load p = .ok m) (fresh : start.files = [])
      (applied : Run.apply now options s (Run.planned options s p m start) = (outcome, run))
      (noted : run.report = report) (left : run.project = after)
      (wrote : Run.carriedOut now options s (Run.planned options s p m start) = written)

/-- Every run comes to something, and one that ends gives the report of it. -/
theorem exists_notes_of_leads {outcome : Except Stop Report}
    (leads : Leads now options s p outcome after) :
    ∃ report written, Notes now options s p report after written ∧
      ∀ given, outcome = .ok given → report = given := by
  have goes {strict : Bool} {start : Report} (fresh : start.files = [])
      (h : continueWith now options strict s p start = (outcome, after)) :
      ∃ report written, Notes now options s p report after written ∧
        ∀ given, outcome = .ok given → report = given := by
    cases opens_continueWith h with
    | stopped cause eq =>
      obtain ⟨rfl, rfl⟩ := Prod.mk.inj eq
      exact ⟨{}, [], .idle rfl rfl rfl, fun _ ended => by cases ended⟩
    | refused refusal eq fails plan files =>
      obtain ⟨rfl, rfl⟩ := Prod.mk.inj eq
      exact ⟨refusal, [], .idle (files.trans fresh) rfl rfl, fun _ => Except.ok.inj⟩
    | planned m valid loads printable eq =>
      have begins : (begun options s m start).files = [] := fresh
      unfold decided at eq
      split at eq
      · obtain ⟨rfl, rfl⟩ := Prod.mk.inj eq
        exact ⟨_, [], .idle begins rfl rfl, fun _ => Except.ok.inj⟩
      · split at eq
        · obtain ⟨rfl, rfl⟩ := Prod.mk.inj eq
          exact ⟨{ begun options s m start with unchanged := true }, [], .idle begins rfl rfl,
            fun _ => Except.ok.inj⟩
        · cases applied :
              Run.apply now options s (Run.planned options s p m (begun options s m start)) with
          | mk result run =>
            refine ⟨run.report, _, .applied m _ result run loads begins applied rfl ?_ rfl,
              fun given ended => ?_⟩
            · rw [applied] at eq
              cases result <;> exact (Prod.mk.inj eq).2.symm
            · rw [applied] at eq
              subst ended
              cases result with
              | error cause => cases (Prod.mk.inj eq).1
              | ok _ => exact (Except.ok.inj (Prod.mk.inj eq).1).symm
  cases leads with
  | ofSchema strict ran => exact goes rfl ran
  | ofFile path loaded ran =>
    simp only [generateFromFile, loaded] at ran
    exact goes rfl ran

/-- However a run goes, it accounts for the files that it writes. -/
theorem comeTo_of_notes (notes : Notes now options s p report after written) :
    Emission.ComeTo now (Emission.ofSchema s options s.dependencyOrder) p after
      report.written written := by
  cases notes with
  | idle files left unwritten =>
    subst left unwritten
    have untold : report.written = [] := by simp [Report.written, files]
    exact untold ▸ .idle now _ after
  | applied m start outcome run loads fresh applied noted left wrote =>
    have comeTo := @Run.comeTo_apply now options s p m start fresh
    rw [applied, wrote] at comeTo
    exact noted ▸ left ▸ comeTo

end Generation
end Scaffold
