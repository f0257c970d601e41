import Scaffold.Manifest.Cleanup
import Scaffold.Proofs.Project.Deleting

/-!
# What a cleanup keeps and deletes

`Cleanup.Reached` holds after every deletion of a cleanup: the disk is the one from before without
the files of the deleted paths, none of which is required. The main statement is
`Manifest.cleanup_exact`.
-/

namespace Scaffold
set_option autoImplicit false

/-- What a pattern finds, or a failure that can be reported. -/
theorem Project.glob_cases (p : Project) {pattern : String} (normal : Path.IsNormal pattern) :
    (∃ f, p.glob pattern = .error (.failure f)) ∨
      ∃ files, p.glob pattern = .ok files ∧ files.Nodup ∧ ∀ file ∈ files, p.Holds file := by
  rcases p.permit_cases .glob pattern with permitted | ⟨f, denied⟩
  · rcases Glob.ofText_cases normal with wrong | ⟨glob, right, down⟩
    · exact .inl ⟨_, by simp only [Project.glob, permitted, wrong, bind, Except.bind]; rfl⟩
    · cases found : p.disk.glob p.root glob with
      | error e =>
        obtain ⟨text, rfl⟩ := Disk.glob_error found
        refine .inl ⟨⟨.glob, pattern, .disk (.refused .nameTooLong text)⟩, ?_⟩
        simp [Project.glob, permitted, right, found, bind, Except.bind, Project.refusal]
      | ok files =>
        refine .inr ⟨files, ?_, Disk.nodup_glob found, fun file mem =>
          Disk.glob_sound down found mem⟩
        simp [Project.glob, permitted, right, found, bind, Except.bind]
  · exact .inl ⟨f, by simp [Project.glob, denied, bind, Except.bind]⟩

namespace Manifest

theorem mem_records {m : Manifest} {kind path : String} {record : FileRecord} :
    (kind, path, record) ∈ m.records ↔ ∃ bucket, (kind, bucket) ∈ m.buckets.entries ∧
    (path, record) ∈ bucket.entries := by
  simp only [records, List.mem_flatMap, List.mem_map, Prod.mk.injEq, Prod.exists]
  constructor
  · rintro ⟨_, bucket, isBucket, _, _, isRecord, rfl, rfl, rfl⟩
    exact ⟨bucket, isBucket, isRecord⟩
  · rintro ⟨bucket, isBucket, isRecord⟩
    exact ⟨kind, bucket, isBucket, path, record, isRecord, rfl, rfl, rfl⟩

theorem mem_trackedPaths {m : Manifest} {path : String} :
    path ∈ m.trackedPaths ↔ ∃ r ∈ m.records, r.2.1 = path := by
  rw [trackedPaths, List.mem_eraseDups, List.mem_map]

/-- Removing a path takes its records out of every bucket. -/
theorem mem_records_remove {m : Manifest} {path : String} {r : String × String × FileRecord} :
    r ∈ (m.remove path).2.records ↔ r ∈ m.records ∧ r.2.1 ≠ path := by
  obtain ⟨kind, tracked, record⟩ := r
  simp only [mem_records, remove, recount, OrderedMap.map, OrderedMap.erase, List.mem_map,
    Prod.mk.injEq, Prod.exists]
  constructor
  · rintro ⟨_, ⟨_, bucket, isBucket, rfl, rfl⟩, isRecord⟩
    obtain ⟨isRecord, apart⟩ := List.mem_filter.1 isRecord
    exact ⟨⟨bucket, isBucket, isRecord⟩, by simpa using apart⟩
  · rintro ⟨⟨bucket, isBucket, isRecord⟩, apart⟩
    exact ⟨_, ⟨kind, bucket, isBucket, rfl, rfl⟩,
      List.mem_filter.2 ⟨isRecord, by simpa using apart⟩⟩

end Manifest

namespace Cleanup

/-- The expansion of a tracked path fails, or the deletion of a file that it stands for. -/
def Fails (p : Project) (required : List String) (path : String) : Prop :=
  (∃ f, targets p required path = .error (.failure f)) ∨
    ∃ files, targets p required path = .ok files ∧ ∃ file ∈ files, ∃ f,
    p.delete file = .error (.failure f)

/-- A path that is no pattern has a null character on its way, and nothing refuses its deletion
before that is seen. -/
def Interrupts (p : Project) (path : String) : Prop :=
  Pattern.isPattern path = false ∧ (∀ d ∈ p.denials, ¬ (d.operation = .delete ∧ d.path = path)) ∧
    (p.root.names ++ Text.split '/' path).any (Text.hasChar '\x00') = true

/-- What holds of a cleanup that has begun with the project `p`. -/
structure Reached (p : Project) (required : List String) (g : Progress) : Prop where
  project : g.project = { p with disk := g.project.disk }
  without : Disk.Without (g.report.deleted.filterMap p.place?) p.disk g.project.disk
  deleted : ∀ path ∈ g.report.deleted,
    Path.IsNormal path ∧ Pattern.anyCovers required path = false ∧ (p.place? path).isSome

variable {p : Project} {required : List String} {g : Progress}

theorem Reached.initial (p : Project) (required : List String) (m : Manifest) :
    Reached p required ⟨{}, m, p⟩ where
  project := rfl
  without := .refl p.disk
  deleted := by simp

theorem Reached.place? (reached : Reached p required g) (path : String) :
    g.project.place? path = p.place? path := by
  rw [reached.project]
  exact Project.place?_without reached.without path

/-- A file that is not required is deleted. -/
theorem Reached.delete (reached : Reached p required g) {path : String}
    (normal : Path.IsNormal path) (spare : Pattern.anyCovers required path = false) {place : Place}
    (here : g.project.place? path = some place)
    (file : g.project.disk.isFile place) :
    Reached p required { g with
      project := { g.project with disk := g.project.disk.remove place }
      report := { g.report with deleted := g.report.deleted ++ [path] } } where
  project := by
    have same := reached.project
    rw [same]
  without := by
    have same : p.place? path = some place := (reached.place? path).symm.trans here
    rw [List.filterMap_append, show [path].filterMap p.place? = [place] by simp [same]]
    exact reached.without.remove file
  deleted other mem := by
    rcases List.mem_append.1 mem with mem | mem
    · exact reached.deleted other mem
    · obtain rfl := List.mem_singleton.1 mem
      refine ⟨normal, spare, ?_⟩
      rw [← reached.place?, here]
      rfl

/-- Whatever the outcome, deleting files that are not required keeps a cleanup going, and leaves the
manifest alone. -/
theorem Reached.deleteFiles (reached : Reached p required g) {files : List String}
    (spare : ∀ file ∈ files, Path.IsNormal file ∧ Pattern.anyCovers required file = false) :
    Reached p required (deleteFiles files g).2 ∧ (deleteFiles files g).2.manifest = g.manifest := by
  induction files generalizing g with
  | nil => exact ⟨reached, rfl⟩
  | cons file rest ih =>
    obtain ⟨normal, notRequired⟩ := spare file (List.mem_cons_self ..)
    have further := fun other mem => spare other (List.mem_cons_of_mem file mem)
    rcases g.project.delete_cases file with ⟨place, -, here, isFile, eq⟩ | eq | ⟨f, eq⟩ | ⟨-, -, eq⟩
    · simp only [Cleanup.deleteFiles, eq]
      exact ih (reached.delete normal notRequired here isFile) further
    · simp only [Cleanup.deleteFiles, eq]
      exact ih ⟨reached.project, reached.without, reached.deleted⟩ further
    · simp only [Cleanup.deleteFiles, eq]
      have rest :=
        ih (g := { g with report := { g.report with failures := g.report.failures ++ [f] } })
        ⟨reached.project, reached.without, reached.deleted⟩ further
      split <;> simp_all
    · simp only [Cleanup.deleteFiles, eq]
      exact ⟨reached, trivial⟩

/-- A file that is taken away leaves the other files where they are. -/
theorem holds_of_remove {file other : String} {place : Place} (held : p.Holds other)
    (apart : other ≠ file) (normal : Path.IsNormal file) (here : p.place? file = some place)
    (isFile : p.disk.isFile place) :
    Project.Holds { p with disk := p.disk.remove place } other := by
  obtain ⟨otherNormal, above, located, otherFile⟩ := held
  have without : Disk.Without [place] p.disk (p.disk.remove place) :=
    (Disk.Without.refl p.disk).remove isFile
  refine ⟨otherNormal, above, without.locate.2 located, without.isFile.2 ⟨otherFile, ?_⟩⟩
  rw [List.mem_singleton]
  rintro rfl
  obtain ⟨above', root, eq⟩ := Project.place_of_normal normal here
  obtain ⟨-, -, root'⟩ := Disk.locate_eq_ok.1 located
  obtain rfl := Except.ok.inj (root.symm.trans root')
  have names := List.reverse_injective (List.append_cancel_right eq)
  exact apart (by rw [← Text.join_split other, names, Text.join_split])

/-- Files that a pattern has found are deleted without interruption; all deletions succeed unless
one of them was going to fail. -/
theorem deleteFiles_of_holds {files : List String} (nodup : files.Nodup)
    (held : ∀ file ∈ files, g.project.Holds file) :
    (∃ file ∈ files, ∃ f, g.project.delete file = .error (.failure f)) ∧
    (deleteFiles files g).1 = .ok false ∨
      (¬ ∃ file ∈ files, ∃ f, g.project.delete file = .error (.failure f)) ∧
      (deleteFiles files g).1 = .ok true := by
  induction files generalizing g with
  | nil => exact .inr ⟨by simp, rfl⟩
  | cons file rest ih =>
    obtain ⟨fresh, nodup⟩ := List.nodup_cons.1 nodup
    have here := held file (List.mem_cons_self ..)
    have others : ∀ other ∈ rest, g.project.Holds other :=
      fun other mem => held other (List.mem_cons_of_mem _ mem)
    rcases here.delete with ⟨place, -, at_, isFile, eq⟩ | ⟨⟨f, eq⟩, -⟩
    · simp only [deleteFiles, eq]
      have left : ∀ other ∈ rest,
          Project.Holds { g.project with disk := g.project.disk.remove place } other := by
        intro other mem
        have apart : other ≠ file := by
          rintro rfl
          exact fresh mem
        exact holds_of_remove (others other mem) apart here.1 at_ isFile
      have without := (Disk.Without.refl g.project.disk).remove isFile
      have same : (∃ other ∈ file :: rest, ∃ f, g.project.delete other = .error (.failure f)) ↔
          ∃ other ∈ rest, ∃ f,
          Project.delete { g.project with disk := g.project.disk.remove place } other =
            .error (.failure f) := by
        rw [List.exists_mem_cons_iff]
        simp only [eq, reduceCtorEq, exists_false, false_or]
        refine exists_congr fun other => and_congr_right fun mem => ?_
        rw [(others other mem).delete_fails_iff, (left other mem).delete_fails_iff,
          Project.place?_without without]
        rfl
      rw [same]
      exact ih (g := { g with
        project := { g.project with disk := g.project.disk.remove place }
        report := { g.report with deleted := g.report.deleted ++ [file] } }) nodup left
    · simp only [deleteFiles, eq]
      refine .inl ⟨⟨file, List.mem_cons_self .., f, eq⟩, ?_⟩
      have rest :=
        ih (g := { g with report := { g.report with failures := g.report.failures ++ [f] } }) nodup
          others
      rcases rest with ⟨-, eq⟩ | ⟨-, eq⟩ <;> split <;> simp_all

theorem fails_iff {path : String} {files : List String} (h : targets p required path = .ok files) :
    Fails p required path ↔ ∃ file ∈ files, ∃ f, p.delete file = .error (.failure f) := by
  simp [Fails, h]

/-- What the cleanup of one tracked path can do. -/
inductive PathCleaned (required : List String) (path : String) (g : Progress) :
    Except Interruption Unit × Progress → Prop where
  | failed {after : Progress} (fails : Fails g.project required path)
      (kept : after.manifest = g.manifest) : PathCleaned required path g (.ok (), after)
  | cleaned {after : Progress} (succeeds : ¬ Fails g.project required path)
      (removed : after.manifest = (g.manifest.remove path).2) :
      PathCleaned required path g (.ok (), after)
  | interrupted {after : Progress} {e : Interruption} (interrupts : Interrupts g.project path)
      (kept : after.manifest = g.manifest) : PathCleaned required path g (.error e, after)

/-- The files that a tracked path stands for are not required. -/
theorem cleanPath_of_targets {path : String} {files : List String} (reached : Reached p required g)
    (h : targets g.project required path = .ok files)
    (spare : ∀ file ∈ files, Path.IsNormal file ∧ Pattern.anyCovers required file = false)
    (outcome : (∃ file ∈ files, ∃ f, g.project.delete file = .error (.failure f)) ∧
      (deleteFiles files g).1 = .ok false ∨ (¬ ∃ file ∈ files, ∃ f,
        g.project.delete file = .error (.failure f)) ∧ (deleteFiles files g).1 = .ok true ∨
      Interrupts g.project path ∧ ∃ e, (deleteFiles files g).1 = .error e) :
    Reached p required (cleanPath required path g).2 ∧
    PathCleaned required path g (cleanPath required path g) := by
  obtain ⟨after, kept⟩ := reached.deleteFiles spare
  cases deletion : deleteFiles files g with
  | mk result reachedNow =>
    rw [deletion] at after kept outcome
    rcases outcome with ⟨fails, eq⟩ | ⟨succeeds, eq⟩ | ⟨interrupts, e, eq⟩ <;>
      (obtain rfl : result = _ := eq)
    · simp only [cleanPath, h, deletion]
      exact ⟨after, .failed ((fails_iff h).2 fails) kept⟩
    · simp only [cleanPath, h, deletion]
      refine ⟨⟨after.project, after.without, after.deleted⟩,
        .cleaned (mt (fails_iff h).1 succeeds) ?_⟩
      exact congrArg (fun m => (Manifest.remove m path).2) kept
    · simp only [cleanPath, h, deletion]
      exact ⟨after, .interrupted interrupts kept⟩

/-- One tracked path that is not required. -/
theorem Reached.cleanPath (reached : Reached p required g) {path : String}
    (normal : Path.IsNormal path) (spare : Pattern.anyCovers required path = false) :
    Reached p required (cleanPath required path g).2 ∧
    PathCleaned required path g (cleanPath required path g) := by
  by_cases pattern : Pattern.isPattern path = true
  · rcases g.project.glob_cases normal with ⟨f, failed⟩ | ⟨files, found, nodup, held⟩
    · have expansion : targets g.project required path = .error (.failure f) := by
        rw [targets, if_pos pattern, failed]
        rfl
      simp only [Cleanup.cleanPath, expansion]
      exact ⟨⟨reached.project, reached.without, reached.deleted⟩, .failed (.inl ⟨f, expansion⟩) rfl⟩
    · have expansion : targets g.project required path =
          .ok (files.filter fun file => !Pattern.anyCovers required file) := by
        rw [targets, if_pos pattern, found]
        rfl
      have held : ∀ file ∈ files.filter fun file => !Pattern.anyCovers required file,
        g.project.Holds file :=
        fun file mem => held file (List.mem_filter.1 mem).1
      refine cleanPath_of_targets reached expansion (fun file mem => ⟨(held file mem).1, ?_⟩) ?_
      · simpa using (List.mem_filter.1 mem).2
      · exact (deleteFiles_of_holds (nodup.filter _) held).imp_right .inl
  · have single : targets g.project required path = .ok [path] := by rw [targets, if_neg pattern]
    refine cleanPath_of_targets reached single (by simp [normal, spare]) ?_
    simp only [Cleanup.deleteFiles, List.mem_singleton, exists_eq_left]
    rcases g.project.delete_cases path with ⟨place, -, -, -, eq⟩ | eq | ⟨f, eq⟩ | ⟨-, -, eq⟩
    · exact .inr (.inl (by simp [eq]))
    · exact .inr (.inl (by simp [eq]))
    · exact .inl (by simp [eq])
    · exact .inr (.inr ⟨⟨by simpa using pattern, (Project.delete_eq_null normal).1 eq⟩,
        by simp [eq]⟩)

/-- A path that interrupts ends the cleanup. -/
theorem cleanPath_of_interrupts {path : String} (normal : Path.IsNormal path)
    (h : Interrupts g.project path) : ∃ e, (cleanPath required path g).1 = .error e := by
  obtain ⟨concrete, noHold⟩ := h
  have refused := (Project.delete_eq_null normal).2 noHold
  have single : targets g.project required path = .ok [path] := by
    rw [targets, if_neg (by rw [concrete]; exact Bool.false_ne_true)]
  exact ⟨.disk .nullCharacter, by simp [cleanPath, single, deleteFiles, refused]⟩

/-- Which paths interrupt does not change in the course of a cleanup. -/
theorem Reached.interrupts_iff (reached : Reached p required g) (path : String) :
    Interrupts g.project path ↔ Interrupts p path := by
  rw [reached.project]
  rfl

/-- A list of tracked paths that are not required is cleaned up to its end unless one interrupts. -/
theorem Reached.cleanPaths (reached : Reached p required g) {paths : List String}
    (obsolete : ∀ path ∈ paths, Path.IsNormal path ∧ Pattern.anyCovers required path = false) :
    Reached p required (cleanPaths required paths g).2 ∧
      ((cleanPaths required paths g).1 = .ok () ↔ ∀ path ∈ paths, ¬ Interrupts p path) := by
  induction paths generalizing g with
  | nil => exact ⟨reached, by simp [Cleanup.cleanPaths]⟩
  | cons path rest ih =>
    obtain ⟨normal, spare⟩ := obsolete path (List.mem_cons_self ..)
    obtain ⟨after, cleaned⟩ := reached.cleanPath normal spare
    have further := ih after fun other mem => obsolete other (List.mem_cons_of_mem path mem)
    rw [List.forall_mem_cons, ← reached.interrupts_iff]
    cases first : Cleanup.cleanPath required path g with
    | mk outcome now =>
      rw [first] at cleaned after further
      cases outcome with
      | ok done =>
        have goesOn : ¬ Interrupts g.project path := by
          intro interrupts
          obtain ⟨e, ends⟩ : ∃ e, (Cleanup.cleanPath required path g).1 = .error e :=
            cleanPath_of_interrupts normal interrupts
          rw [first] at ends
          cases ends
        simp only [Cleanup.cleanPaths, first]
        exact ⟨further.1, further.2.trans (by simp [goesOn])⟩
      | error e =>
        cases cleaned with
        | interrupted interrupts kept =>
          simp only [Cleanup.cleanPaths, first]
          exact ⟨after, iff_of_false nofun fun h => h.1 interrupts⟩

/-- The records that are left when a list of tracked paths is cleaned up to its end: those of other
paths, and those of a path with a failure at its turn. -/
theorem Reached.mem_records (reached : Reached p required g) {paths : List String}
    (nodup : paths.Nodup)
    (obsolete : ∀ path ∈ paths, Path.IsNormal path ∧ Pattern.anyCovers required path = false)
    (done : (Cleanup.cleanPaths required paths g).1 = .ok ()) (r : String × String × FileRecord) :
    r ∈ (Cleanup.cleanPaths required paths g).2.manifest.records ↔ r ∈ g.manifest.records ∧
    (r.2.1 ∈ paths →
      Fails (Cleanup.cleanPaths required (paths.takeWhile (· != r.2.1)) g).2.project
        required r.2.1) := by
  induction paths generalizing g with
  | nil => simp [Cleanup.cleanPaths]
  | cons path rest ih =>
    obtain ⟨normal, spare⟩ := obsolete path (List.mem_cons_self ..)
    obtain ⟨after, cleaned⟩ := reached.cleanPath normal spare
    obtain ⟨fresh, nodup⟩ := List.nodup_cons.1 nodup
    have further := ih after nodup fun other mem => obsolete other (List.mem_cons_of_mem path mem)
    cases first : Cleanup.cleanPath required path g with
    | mk outcome now =>
      rw [first] at cleaned after further
      cases outcome with
      | error e =>
        simp only [Cleanup.cleanPaths, first] at done
        cases done
      | ok _ =>
        simp only [Cleanup.cleanPaths, first] at done ⊢
        rw [further done]
        by_cases here : r.2.1 = path
        · have start : (path :: rest).takeWhile (· != r.2.1) = [] := by simp [here]
          rw [start]
          simp only [here, fresh, false_imp_iff, and_true, List.mem_cons_self, forall_const,
            Cleanup.cleanPaths]
          cases cleaned with
          | failed fails kept => simp [kept, fails]
          | cleaned succeeds removed => simp [removed, Manifest.mem_records_remove, here, succeeds]
        · have start :
              (path :: rest).takeWhile (· != r.2.1) = path :: rest.takeWhile (· != r.2.1) := by
            simp [Ne.symm here]
          rw [start]
          simp only [List.mem_cons, here, false_or, Cleanup.cleanPaths, first]
          cases cleaned with
          | failed fails kept => rw [kept]
          | cleaned succeeds removed => simp [removed, Manifest.mem_records_remove, here]

/-- The project when a cleanup comes to a tracked path. -/
def turn (m : Manifest) (s : Schema) (p : Project) (path : String) : Project :=
  (cleanPaths s.requiredArtifacts ((m.obsolete s).takeWhile (· != path)) ⟨{}, m, p⟩).2.project

end Cleanup

namespace Manifest

theorem mem_obsolete {m : Manifest} {s : Schema} {path : String} :
    path ∈ m.obsolete s ↔ path ∈ m.trackedPaths ∧
    Pattern.anyCovers s.requiredArtifacts path = false := by
  simp [obsolete]

theorem nodup_obsolete (m : Manifest) (s : Schema) : (m.obsolete s).Nodup :=
  (nodup_eraseDups _).filter _

theorem records_recount (m : Manifest) : m.recount.records = m.records := rfl

/-- A cleanup gives a report unless one of the paths that are to go interrupts it. In any case a
file that is required stays as it is. With a report, the files of the deleted paths are gone and
nothing else has changed; a tracked path keeps its records exactly when it is required or has a
failure at its turn; and the records are counted. -/
theorem cleanup_exact (m : Manifest) (s : Schema) (p : Project)
    (normal : ∀ path ∈ m.trackedPaths, Path.IsNormal path) :
    ((∃ report, (m.cleanup s p).1 = .ok report) ↔
      ∀ path ∈ m.obsolete s, ¬ Cleanup.Interrupts p path) ∧
    (∀ file, Path.IsNormal file → Pattern.anyCovers s.requiredArtifacts file = true →
      ∀ place, p.place? file = some place →
        (m.cleanup s p).2.2.disk.get? place = p.disk.get? place) ∧
    ∀ report, (m.cleanup s p).1 = .ok report →
      (∀ file ∈ report.deleted, Pattern.anyCovers s.requiredArtifacts file = false ∧
        ∃ place, p.place? file = some place ∧ p.disk.isFile place) ∧
      (∀ place, (m.cleanup s p).2.2.disk.get? place =
        if ∃ file ∈ report.deleted, p.place? file = some place then none else p.disk.get? place) ∧
      (∀ r, r ∈ (m.cleanup s p).2.1.records ↔ r ∈ m.records ∧
        (Pattern.anyCovers s.requiredArtifacts r.2.1 = true ∨
          Cleanup.Fails (Cleanup.turn m s p r.2.1) s.requiredArtifacts r.2.1)) ∧
      (m.cleanup s p).2.1.count = (m.cleanup s p).2.1.records.length := by
  have obsolete : ∀ path ∈ m.obsolete s,
      Path.IsNormal path ∧ Pattern.anyCovers s.requiredArtifacts path = false := by
    intro path mem
    obtain ⟨tracked, spare⟩ := mem_obsolete.1 mem
    exact ⟨normal path tracked, spare⟩
  have start := Cleanup.Reached.initial p s.requiredArtifacts m
  obtain ⟨after, done⟩ := start.cleanPaths obsolete
  have left := start.mem_records (m.nodup_obsolete s) obsolete
  cases run : Cleanup.cleanPaths s.requiredArtifacts (m.obsolete s) ⟨{}, m, p⟩ with
  | mk outcome g =>
    rw [run] at after done left
    have holds : ∀ file, Path.IsNormal file → Pattern.anyCovers s.requiredArtifacts file = true →
        ∀ place, p.place? file = some place → g.project.disk.get? place = p.disk.get? place := by
      intro file isNormal required place here
      rw [after.without.holds, if_neg]
      intro mem
      obtain ⟨other, isDeleted, same⟩ := List.mem_filterMap.1 mem
      obtain ⟨otherNormal, spare, -⟩ := after.deleted other isDeleted
      obtain rfl := Project.place?_inj isNormal otherNormal here same
      exact absurd (required.symm.trans spare) (by decide)
    cases outcome with
    | error e =>
      simp only [cleanup, run]
      refine ⟨iff_of_false (by simp) fun h => ?_, holds, by simp⟩
      cases (done.2 h)
    | ok _ =>
      simp only [cleanup, run]
      refine ⟨iff_of_true ⟨g.report, rfl⟩ (done.1 rfl), holds, ?_⟩
      intro report eq
      obtain rfl := Except.ok.inj eq
      refine ⟨fun file mem => ?_, fun place => ?_, fun r => ?_, rfl⟩
      · obtain ⟨-, spare, filled⟩ := after.deleted file mem
        obtain ⟨place, here⟩ := Option.isSome_iff_exists.1 filled
        exact ⟨spare, place, here,
          after.without.files place (List.mem_filterMap.2 ⟨file, mem, here⟩)⟩
      · rw [after.without.holds]
        simp only [List.mem_filterMap]
      · rw [records_recount, left rfl]
        refine and_congr_right fun isRecord => ?_
        have tracked : r.2.1 ∈ m.trackedPaths := mem_trackedPaths.2 ⟨r, isRecord, rfl⟩
        rw [mem_obsolete, and_iff_right tracked]
        cases Pattern.anyCovers s.requiredArtifacts r.2.1 <;> simp [Cleanup.turn]

/-- A manifest that tracks two files that nothing requires; the path of the first may hold a null
character. -/
def stray (first : String) : Manifest :=
  let record : FileRecord := ⟨"", none, 0, []⟩
  (({} : Manifest).upsert "models" first record).upsert "models" "app/Models/Old.php" record

/-- A project that holds the second of the two files. -/
def strayProject : Project :=
  ((⟨Disk.blank, Path.ofText "project", true, []⟩ : Project).writeText "app/Models/Old.php" "old").2

/-- A schema that requires nothing of its own. -/
def noSchema : Schema where
  settings := none
  entities := .empty
  pivots := .empty
  customRoutes := []
  document := []
  issues := []
  entities_named := by simp [OrderedMap.empty]
  pivots_named := by simp [OrderedMap.empty]

/-- Without a null character the file goes and with it its record. -/
theorem cleanup_exact_stray :
    (∃ report, ((stray "app/Models/New.php").cleanup noSchema strayProject).1 = .ok report) ∧
      ((stray "app/Models/New.php").cleanup noSchema strayProject).2.1.count =
        ((stray "app/Models/New.php").cleanup noSchema strayProject).2.1.records.length := by
  have normal : ∀ path ∈ (stray "app/Models/New.php").trackedPaths, Path.IsNormal path := by
    decide +kernel
  have concrete : ∀ path ∈ (stray "app/Models/New.php").obsolete noSchema,
      (strayProject.root.names ++ Text.split '/' path).any (Text.hasChar '\x00') = false := by
    decide +kernel
  obtain ⟨reported, -, rest⟩ :=
    cleanup_exact (stray "app/Models/New.php") noSchema strayProject normal
  obtain ⟨report, eq⟩ := reported.2 fun path mem interrupts =>
    absurd (interrupts.2.2.symm.trans (concrete path mem)) (by decide)
  exact ⟨⟨report, eq⟩, (rest report eq).2.2.2⟩

/-- A null character in the first path ends the cleanup without a report. The second file stays with
its record, although it is not required and its deletion would succeed. -/
theorem cleanup_interrupted :
    (∀ path ∈ (stray "a\x00b").trackedPaths, Path.IsNormal path) ∧
      ((stray "a\x00b").cleanup noSchema strayProject).1 = .error (.disk .nullCharacter) ∧
      Pattern.anyCovers noSchema.requiredArtifacts "app/Models/Old.php" = false ∧
      (strayProject.delete "app/Models/Old.php").toOption.isSome ∧
      "app/Models/Old.php" ∈ ((stray "a\x00b").cleanup noSchema strayProject).2.1.trackedPaths ∧
      ((stray "a\x00b").cleanup noSchema strayProject).2.2.disk.isFile ["Old.php", "Models", "app",
        "project"] := by
  refine ⟨by decide +kernel, rfl, by decide +kernel, by decide +kernel, by decide +kernel, by
    decide +kernel⟩

end Manifest
end Scaffold
