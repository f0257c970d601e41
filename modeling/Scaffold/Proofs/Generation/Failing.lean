import Scaffold.Proofs.Generation.Delivery
import Scaffold.Proofs.Generation.Written

/-!
# What is left of a file that could not be written

A run goes on after a file that could not be rendered or written. `Run.GivesUp` says what there is
then: all files and records are as before, but a migration has lost the files that its pattern finds
and the records that it covers. That is what is there in the end, but where a later file of the run
is made: `Generation.withstands_of_runs`.
-/

namespace Scaffold
set_option autoImplicit false

open Text (NumeralError)

namespace Report

variable {kind : String} {before after : Report}

/-- A report tells of a file that its text could not be rendered, or that it could not be
written. -/
inductive Misses (kind : String) (before after : Report) : Prop where
  | unrendered (path : String) (action : FileAction) (writes : action.writes = true)
      (error : NumeralError) (noted : after = before.addRenderFailure kind path action error)
  | unwritten (path : String) (action : FileAction) (writes : action.writes = true) (f : IOFailure)
      (operation : f.operation = .write ∨ f.operation = .resolve)
      (noted : after = before.addIOFailure kind path action f)

/-- What is missed is told as one failure. -/
theorem Misses.result (h : Misses kind before after) : ∃ path action message,
    action.writes = true ∧ after.files = before.files ++ [⟨kind, path, action, some message⟩] := by
  cases h with
  | unrendered path action writes error noted => exact ⟨path, action, _, writes, by rw [noted]; rfl⟩
  | unwritten path action writes f operation noted =>
    exact ⟨path, action, _, writes, by rw [noted]; rfl⟩

/-- Of the failures of operations, only those of a write are misses: their message tells. -/
theorem Misses.operation {other path : String} {action : FileAction} {f : IOFailure}
    (h : Misses kind before (before.addIOFailure other path action f)) :
    action.writes = true ∧ (f.operation = .write ∨ f.operation = .resolve) := by
  cases h with
  | unrendered path' action' writes error noted =>
    have added := congrArg (fun r : Report => r.generationErrors.length) noted
    simp [addIOFailure, addRenderFailure] at added
  | unwritten path' action' writes g operation noted =>
    have files := List.append_cancel_left (congrArg Report.files noted)
    simp only [List.cons.injEq, FileResult.mk.injEq, Option.some.injEq, and_true] at files
    obtain ⟨-, -, rfl, message⟩ := files
    exact ⟨writes, IOFailure.operation_of_message message ▸ operation⟩

end Report

namespace Run

variable {now : Moment} {mode : Mode} {run before after : Run} {kind : ArtifactKind} {path : String}
  {action : FileAction} {metadata : Json.Members}

end Run

namespace Emission

end Emission

namespace Run

variable {now : Moment} {mode : Mode} {before after : Run} {e : Emission}

/-- A run has attempted a file after some others and before the later ones. -/
structure Attempt (now : Moment) (mode : Mode) (emissions : List Emission) (ready : Run)
    (e : Emission) (later : List Emission) (before after : Run) : Prop where
  reached : ∃ front, emissions = front ++ e :: later ∧
    emitAll now mode front ready = (.ok (), before)
  attempted : emit now mode before e = (.ok (), after)

variable {emissions later : List Emission} {ready made between : Run}

theorem emitAll_append (front back : List Emission) (run : Run) :
    emitAll now mode (front ++ back) run = match emitAll now mode front run with
      | (.ok (), between) => emitAll now mode back between
      | failed => failed := by
  induction front generalizing run with
  | nil => rfl
  | cons e rest ih =>
    rw [List.cons_append, emitAll, emitAll]
    cases emit now mode run e with
    | mk outcome between =>
      cases outcome with
      | ok _ => exact ih between
      | error cause => rfl

/-- After an attempt a run goes on with the later files. -/
theorem Attempt.rest (attempt : Attempt now mode emissions ready e later before between)
    (all : emitAll now mode emissions ready = (.ok (), made)) :
    emitAll now mode later between = (.ok (), made) := by
  obtain ⟨front, rfl, reached⟩ := attempt.reached
  rw [emitAll_append, reached] at all
  dsimp only at all
  rw [emitAll, attempt.attempted] at all
  exact all

/-- Up to an attempt a run only makes files. -/
theorem Attempt.moved (attempt : Attempt now mode emissions ready e later before between) :
    Moved (fun _ => True) ready before := by
  obtain ⟨front, -, reached⟩ := attempt.reached
  have changes :
    Changes now (fun _ => True) (fun _ => True) ready (emitAll now mode front ready).2 :=
    changes_emitAll (fun _ _ _ _ => trivial) fun _ _ _ _ => trivial
  rw [reached] at changes
  exact changes.moved

variable {options : Options} {s : Schema} {p : Project} {m : Manifest} {begun : Report}

/-- The last step leaves all files alone, or it saves the manifest. -/
theorem Saves.project {stamp : Bool} (h : Saves now m stamp before after) :
    Project.Touches (fun _ => False) before.project after.project ∨
      ∃ saved, ({} : Store).save m before.project = (.ok (), saved) ∧
      Project.Touches Store.HistoryTouched saved after.project := by
  cases h with
  | unsaved f refused noted => exact .inl (Store.touches_save_of_error refused)
  | unrecorded saved f stamped done refused noted =>
    have touched := Store.touches_saveToHistory m now saved
    rw [refused] at touched
    exact .inr ⟨saved, done, touched⟩
  | saved saved entry detail done entered noted => exact .inr ⟨saved, done, entered⟩

/-- The last step leaves generated files alone. -/
theorem Saves.kept {stamp : Bool} (h : Saves now m stamp before after) {names : List String}
    (below : Schema.IsBelowRoots names) :
    after.project.contentAt names = before.project.contentAt names := by
  rcases h.project with untouched | ⟨saved, done, entered⟩
  · exact untouched.contents names not_false
  · have written := Store.touches_save ({} : Store) m before.project
    rw [done] at written
    rw [entered.contents names below.apart.2]
    exact written.contents names fun same => below.apart.1 (same.trans Store.namesOf_manifestPath)

end Run

namespace Generation

variable {now : Moment} {options : Options} {s : Schema} {p after : Project} {report : Report}

/-- A project with a model, which cannot be written. -/
def closedModel : Project :=
  { (newProject.writeText "app/Models/Tag.php" "<?php").2 with
    denials := [⟨.write, "app/Models/Tag.php", "injected"⟩] }

/-- The failure to write the model, and what is reported of it. -/
def refusedModel : IOFailure := ⟨.write, "app/Models/Tag.php", .denied "injected"⟩

end Generation
end Scaffold
