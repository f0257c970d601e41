import Scaffold.Proofs.Generation.Steps
import Scaffold.Proofs.Manifest.History

/-!
# Saving the manifest

The history is kept apart from all other files of a project: saving to it touches names below its
directory only. `Run.Saves` lists what the last step of a run can do.
-/

namespace Scaffold
set_option autoImplicit false

namespace Store

/-- The names with which every file of the history begins. -/
def historyNames : List String := [".ai-native", "history"]

/-- The names that saving to the history touches; without a free path it is the root. -/
def HistoryTouched (names : List String) : Prop := names = [] ∨ historyNames <+: names

theorem prefix_historyPath (rest : String) :
    historyNames <+: namesOf (({} : Store).historyDirectory ++ "/" ++ rest) := by
  have front : namesOf ({} : Store).historyDirectory = historyNames := by decide
  rw [namesOf_append, front]
  exact List.prefix_append ..

theorem prefix_of_mem_historyPaths {stem : String} {count : Nat} {path : String}
    (mem : path ∈ ({} : Store).historyPaths stem count) : historyNames <+: namesOf path := by
  rcases List.mem_cons.1 mem with rfl | mem
  · have eq := prefix_historyPath (stem ++ ".json")
    rwa [← String.append_assoc] at eq
  · obtain ⟨i, -, rfl⟩ := List.mem_map.1 mem
    have eq := prefix_historyPath (stem ++ "_" ++ toString (i + 1) ++ ".json")
    simpa only [String.append_assoc] using eq

theorem prefix_of_mem_historyFiles {p : Project} {files : List String}
    (h : ({} : Store).historyFiles p = .ok files) :
    ∀ file ∈ files, historyNames <+: namesOf file := by
  intro file mem
  simp only [historyFiles, bind, Except.bind] at h
  split at h
  · cases h
  · split at h
    · have pattern : ({} : Store).historyDirectory ++ "/*.json" = Text.join "/" historyNames ++
        "/" ++ "*.json" := by decide
      rw [pattern] at h
      exact Project.prefix_of_mem_glob (by decide) (by decide) (by decide) h mem
    · obtain rfl := Except.ok.inj h
      exact absurd mem List.not_mem_nil

theorem touches_pruneHistory (p : Project) :
    Project.Touches HistoryTouched p (({} : Store).pruneHistory p).2 := by
  unfold pruneHistory
  split
  · exact .refl _ p
  · rename_i files found
    have within :
      ∀ file ∈ files.take (({} : Store).excess files.length), HistoryTouched (namesOf file) :=
      fun file mem => .inr (prefix_of_mem_historyFiles found file (List.mem_of_mem_take mem))
    have deleted := touches_deleteAll (p := p) within
    dsimp only
    cases deletion : deleteAll (files.take (({} : Store).excess files.length)) p with
    | mk outcome after =>
      rw [deletion] at deleted
      cases outcome <;> exact deleted

/-- Saving to the history touches the history only. -/
theorem touches_saveToHistory (m : Manifest) (now : Moment) (p : Project) :
    Project.Touches HistoryTouched p (({} : Store).saveToHistory m now p).2 := by
  have made : Project.Touches HistoryTouched p (p.makeDirectory ({} : Store).historyDirectory).2 :=
    (p.touches_makeDirectory _).mono fun _ => False.elim
  unfold saveToHistory
  cases directory : p.makeDirectory ({} : Store).historyDirectory with
  | mk outcome p₁ =>
    rw [directory] at made
    cases outcome with
    | error e => exact made
    | ok _ =>
      dsimp only
      split
      · exact made
      · rename_i free found
        have within : HistoryTouched (namesOf (free.getD "")) := by
          cases free with
          | none => exact .inl (by decide)
          | some path => exact .inr (prefix_of_mem_historyPaths (free_of_firstFree found).1)
        split
        · exact made
        · rename_i text _
          have written : Project.Touches HistoryTouched p₁ (p₁.writeText (free.getD "") text).2 :=
            (p₁.touches_write (free.getD "") text.toUTF8).mono fun names same => same ▸ within
          cases entry : p₁.writeText (free.getD "") text with
          | mk outcome p₂ =>
            rw [entry] at written
            cases outcome with
            | error e => exact made.trans written
            | ok _ =>
              have pruned := touches_pruneHistory p₂
              cases old : ({} : Store).pruneHistory p₂ with
              | mk outcome p₃ =>
                rw [old] at pruned
                simp only [old]
                cases outcome <;> exact made.trans (written.trans pruned)

end Store

namespace Run

/-- The name of the last step. -/
def saveStep : String := "Save Manifest"

/-- What the last step of a run can do with a manifest: it stays unsaved, it is saved but does not
enter the history, or all goes well. -/
inductive Saves (now : Moment) (m : Manifest) (stamp : Bool) (run after : Run) : Prop where
  | unsaved (f : IOFailure)
      (refused : ({} : Store).save m run.project = (.error (.failure f), after.project))
      (report : after.report =
        { run.report with ioErrors := run.report.ioErrors ++ [f.message] }.addStep saveStep
          false f.message)
  | unrecorded (saved : Project) (f : IOFailure) (stamped : stamp = true)
      (done : ({} : Store).save m run.project = (.ok (), saved))
      (refused : ({} : Store).saveToHistory m now saved = (.error (.failure f), after.project))
      (report : after.report =
        { run.report with ioErrors := run.report.ioErrors ++ [f.message] }.addStep saveStep
          false f.message)
  | saved (saved : Project) (entry : Option String) (detail : String)
      (done : ({} : Store).save m run.project = (.ok (), saved))
      (entered : Project.Touches Store.HistoryTouched saved after.project)
      (report : after.report = { run.report with historyEntry := entry }.addStep
        saveStep true detail)

/-- The manifest that the last step saves. -/
def toSave (now : Moment) (s : Schema) (stamp : Bool) (m : Manifest) : Manifest :=
  (if stamp then m.stamp s now else m).recount

variable {now : Moment} {options : Options} {run after : Run} {m : Manifest} {s : Schema}

theorem stamped_eq {r : Reconciliation} (known : r.manifest? = some m) (schema : r.schema? = some s)
    (stamp : Bool) (now : Moment) :
    r.stamped stamp now = .ok (if stamp then m.stamp s now else m) := by
  simp only [Reconciliation.stamped, Reconciliation.manifest, Reconciliation.schema, known, schema,
    Reconciliation.known, bind, Except.bind]
  cases stamp <;> rfl

/-- Saving a manifest is refused or fails, or it is saved; then a stamped one enters the history, or
fails to. -/
theorem commit_cases {r : Reconciliation} (known : r.manifest? = some m)
    (schema : r.schema? = some s) (store : r.store = {})
    (stamp : Bool) (now : Moment) (p : Project) :
    (r.state ≠ .reconciled ∧ r.commit stamp now p = (.error (.outOfOrder .commit r.state), r, p)) ∨
      (∃ e r' after, ({} : Store).save (toSave now s stamp m) p = (.error e, after) ∧
        r.commit stamp now p = (.error e, r', after)) ∨
      ∃ saved, ({} : Store).save (toSave now s stamp m) p = (.ok (), saved) ∧
        ((stamp = true ∧ ∃ e r' after,
            ({} : Store).saveToHistory (toSave now s stamp m) now saved = (.error e, after) ∧
            r.commit stamp now p = (.error e, r', after)) ∨
          ∃ entry r' after, r.commit stamp now p = (.ok entry, r', after) ∧
            Project.Touches Store.HistoryTouched saved after) := by
  by_cases state : r.state = .reconciled
  · have ready :
        (do r.expect .commit .reconciled; r.stamped stamp now : Except Interruption Manifest) =
        .ok (if stamp then m.stamp s now else m) := by
      simp only [Reconciliation.expect, if_pos state, stamped_eq known schema, bind, Except.bind]
    have given : (if stamp then m.stamp s now else m).recount = toSave now s stamp m := rfl
    unfold Reconciliation.commit
    rw [ready, store]
    dsimp only
    rw [given]
    refine .inr ?_
    cases saving : ({} : Store).save (toSave now s stamp m) p with
    | mk outcome saved =>
      cases outcome with
      | error e => exact .inl ⟨e, _, saved, rfl, rfl⟩
      | ok _ =>
        cases stamp with
        | false => exact .inr ⟨saved, rfl, .inr ⟨none, _, saved, rfl, .refl _ saved⟩⟩
        | true =>
          have touched := Store.touches_saveToHistory (toSave now s true m) now saved
          simp only [if_true]
          cases entering : ({} : Store).saveToHistory (toSave now s true m) now saved with
          | mk outcome after =>
            rw [entering] at touched
            cases outcome with
            | ok path => exact .inr ⟨saved, rfl, .inr ⟨some path, _, after, rfl, touched⟩⟩
            | error e => exact .inr ⟨saved, rfl, .inl ⟨trivial, e, _, after, entering, rfl⟩⟩
  · refine .inl ⟨state, ?_⟩
    unfold Reconciliation.commit
    simp only [Reconciliation.expect, if_neg state, Reconciliation.refuse, bind, Except.bind]

/-- The last step of a run that comes to its end. -/
theorem saves_of_saveManifest (known : run.reconciliation.manifest? = some m)
    (schema : run.reconciliation.schema? = some s)
    (store : run.reconciliation.store = {}) (h : saveManifest now options run = (.ok (), after)) :
    Saves now (toSave now s (isClean run.report && options.only.isEmpty) m) (isClean run.report &&
      options.only.isEmpty) run after := by
  unfold saveManifest at h
  rcases commit_cases known schema store (isClean run.report && options.only.isEmpty) now
      run.project with
    ⟨-, eq⟩ | ⟨e, r', left, refused, eq⟩ | ⟨saved, done,
      ⟨stamped, e, r', left, refused, eq⟩ | ⟨entry, r', left, eq, entered⟩⟩
  · simp only [eq] at h
    cases (Prod.mk.inj h).1
  · simp only [eq] at h
    cases e with
    | failure f =>
      obtain ⟨-, rfl⟩ := Prod.mk.inj h
      exact .unsaved f refused rfl
    | _ => cases (Prod.mk.inj h).1
  · simp only [eq] at h
    cases e with
    | failure f =>
      obtain ⟨-, rfl⟩ := Prod.mk.inj h
      exact .unrecorded saved f stamped done refused rfl
    | _ => cases (Prod.mk.inj h).1
  · simp only [eq] at h
    obtain ⟨-, rfl⟩ := Prod.mk.inj h
    exact .saved saved entry _ done entered rfl

/-- A stamped manifest can enter the history: nothing is refused, and there is room for it in an
empty directory. -/
structure CanRecord (now : Moment) (p : Project) : Prop where
  granted : p.denials = []
  clear : ({} : Store).IsClear p
  room : Store.HasRoom {} p (Store.historyStem {} now ++ ".json")

/-- A manifest that was saved, and that can enter the history if it is stamped, is what the last
step of a run leaves. -/
theorem exists_saveManifest {saved : Project} (state : run.reconciliation.state = .reconciled)
    (store : run.reconciliation.store = {}) (known : run.reconciliation.manifest? = some m)
    (schema : run.reconciliation.schema? = some s)
    (done : ({} : Store).save (toSave now s (isClean run.report && options.only.isEmpty) m)
      run.project = (.ok (), saved))
    (enters : options.only = [] → CanRecord now saved) :
    ∃ entry detail after, saveManifest now options run = (.ok (), after) ∧
      after.report = { run.report with historyEntry := entry }.addStep saveStep true detail ∧
      Project.Touches Store.HistoryTouched saved after.project := by
  rcases commit_cases known schema store (isClean run.report && options.only.isEmpty) now
      run.project with
    ⟨wrong, -⟩ | ⟨e, r, after, refused, -⟩ | ⟨other, done',
      ⟨stamped, e, r, after, refused, -⟩ | ⟨entry, r, after, eq, touched⟩⟩
  · exact absurd state wrong
  · cases (Prod.mk.inj (done.symm.trans refused)).1
  · obtain ⟨-, rfl⟩ := Prod.mk.inj (done.symm.trans done')
    rw [stamped] at done refused
    have plain : ({} : Store).IsPlain := by decide +kernel
    have can := enters (List.isEmpty_iff.1 (Bool.and_eq_true_iff.1 stamped).2)
    have printable : (Store.historyEntry (toSave now s true m) now).isPrintable = true :=
      Store.isPrintable_historyEntry (Store.save_eq_ok.1 (congrArg Prod.fst done)).1
    have digest : (toSave now s true m).HasPlainDigest := Manifest.hasPlainDigest_stamp m s now
    obtain ⟨path, left, entered⟩ :=
      Store.exists_saveToHistory plain can.granted can.clear digest can.room printable
    cases (Prod.mk.inj (entered.symm.trans refused)).1
  · obtain ⟨-, rfl⟩ := Prod.mk.inj (done.symm.trans done')
    simp only [saveManifest, eq]
    exact ⟨entry, _, _, rfl, rfl, touched⟩

/-- Whether or not it comes to its end, the last step leaves all files alone, or saves the
manifest. -/
theorem saved_of_saveManifest (known : run.reconciliation.manifest? = some m)
    (schema : run.reconciliation.schema? = some s)
    (store : run.reconciliation.store = {}) :
    Project.Touches (fun _ => False) run.project (saveManifest now options run).2.project ∨
      ∃ saved, ({} : Store).save (toSave now s (isClean run.report && options.only.isEmpty) m)
        run.project = (.ok (), saved) ∧ Project.Touches Store.HistoryTouched saved
          (saveManifest now options run).2.project := by
  have project : (saveManifest now options run).2.project =
      (run.reconciliation.commit (isClean run.report && options.only.isEmpty) now
        run.project).2.2 := by
    unfold saveManifest
    dsimp only
    split <;> rename_i eq <;> simp only [eq, log]
  rw [project]
  rcases commit_cases known schema store (isClean run.report && options.only.isEmpty) now
      run.project with
    ⟨-, eq⟩ | ⟨e, r', left, refused, eq⟩ | ⟨saved, done,
      ⟨-, e, r', left, refused, eq⟩ | ⟨entry, r', left, eq, entered⟩⟩
  · rw [eq]
    exact .inl (.refl _ _)
  · rw [eq]
    exact .inl (Store.touches_save_of_error refused)
  · have touched :=
      Store.touches_saveToHistory
        (toSave now s (isClean run.report && options.only.isEmpty) m) now saved
    rw [refused] at touched
    rw [eq]
    exact .inr ⟨saved, done, touched⟩
  · rw [eq]
    exact .inr ⟨saved, done, entered⟩

end Run
end Scaffold
