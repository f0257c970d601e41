import Scaffold.Proofs.Generation.Settling
import Scaffold.Proofs.Manifest.Change
import Scaffold.Proofs.Schema.Requirements

/-!
# Files that the stamp strands

A run stops where the manifest carries the digest of its schema. A path that is tracked there
although the schema does not require it is stranded: no later run of the schema deletes it.
`Generation.Stranding` lists the runs that strand a path. A merge that makes everything stamps its
schema over what it keeps, and a run that is partial or fails keeps the digest of an earlier schema
over files of its own. A sequence of runs strands nothing exactly when none of its runs is one of
these: `Generation.isSettled_iff`.
-/

namespace Scaffold
set_option autoImplicit false

namespace Schema

/-- A schema of plain names that was read from a document. -/
def IsOrdinary (s : Schema) : Prop :=
  ∃ document, Json.IsDecoded (.object document) ∧ build document = .ok s ∧ s.HasPlainNames

variable {s t : Schema}

/-- Ordinary schemas with one digest require the same files. -/
theorem IsOrdinary.requiredArtifacts_eq (ordinary : s.IsOrdinary) (ordinary' : t.IsOrdinary)
    (apart : s.AreToldApart t) (same : s.hash = t.hash) :
    s.requiredArtifacts = t.requiredArtifacts := by
  obtain ⟨a, decoded, built, plain⟩ := ordinary
  obtain ⟨b, decoded', built', -⟩ := ordinary'
  have document := document_of_build built
  have document' := document_of_build built'
  have alike := (hash_eq_iff (document ▸ decoded) (document' ▸ decoded') apart).1 same
  rw [document, document'] at alike
  exact requiredArtifacts_of_plain built built' ⟨decoded.sound, decoded'.sound, alike⟩ plain

end Schema

namespace Project

/-- The manifest that is in its file, whether or not a way leads there. -/
def HasManifest (p : Project) (m : Manifest) : Prop :=
  ∃ bytes, p.contentAt Store.manifestNames = some bytes ∧ ({} : Store).parsed bytes = .ok m

/-- The manifest carries the digest of a schema and tracks a path that the schema does not
require. -/
def Strands (p : Project) (t : Schema) (path : String) : Prop :=
  ∃ m, p.HasManifest m ∧ m.schemaHash = some t.hash ∧ path ∈ m.obsolete t

/-- No schema of a family has a stranded path. -/
def IsSettled (family : Schema → Prop) (p : Project) : Prop :=
  ∀ t path, family t → ¬ p.Strands t path

variable {p after : Project} {m : Manifest} {t : Schema} {path : String}

theorem HasManifest.unique {other : Manifest} (h : p.HasManifest m) (h' : p.HasManifest other) :
    m = other := by
  obtain ⟨bytes, content, parsed⟩ := h
  obtain ⟨bytes', content', parsed'⟩ := h'
  obtain rfl := Option.some.inj (content.symm.trans content')
  exact Except.ok.inj (parsed.symm.trans parsed')

/-- A manifest that was loaded with a digest is in its file. -/
theorem hasManifest_of_load {digest : String} (loaded : ({} : Store).load p = .ok m)
    (stamped : m.schemaHash = some digest) : p.HasManifest m := by
  rcases Store.load_eq_ok loaded with ⟨-, rfl⟩ | ⟨bytes, stands, parsed⟩
  · cases stamped
  · exact ⟨bytes, Store.namesOf_manifestPath ▸ stands.contentAt, parsed⟩

/-- A manifest that was saved is in its file, also after it has entered the history. -/
theorem hasManifest_of_save {saved : Project} (done : ({} : Store).save m p = (.ok (), saved))
    (entered : Touches Store.HistoryTouched saved after) : after.HasManifest m.recount.stored := by
  obtain ⟨bytes, stands, parsed⟩ := Store.stands_of_save (by decide) done
  have left := (stands.of_touches entered
    (Store.namesOf_manifestPath ▸ Generation.not_historyTouched_manifestNames)).contentAt
  exact ⟨bytes, Store.namesOf_manifestPath ▸ left, parsed⟩

/-- A manifest that is left where its file was spared was there before. -/
theorem HasManifest.of_spares (h : after.HasManifest m)
    (spared : Spares Store.manifestNames p after) : p.HasManifest m := by
  obtain ⟨bytes, content, parsed⟩ := h
  rcases spared.content with kept | gone
  · exact ⟨bytes, kept ▸ content, parsed⟩
  · cases (gone.symm.trans content)

/-- Where the file of the manifest is spared, nothing new is stranded. -/
theorem Strands.of_spares (h : after.Strands t path) (spared : Spares Store.manifestNames p after) :
    p.Strands t path := by
  obtain ⟨m, held, stamped, obsolete⟩ := h
  exact ⟨m, held.of_spares spared, stamped, obsolete⟩

/-- What the surroundings refuse has no part in what is stranded. -/
theorem strands_congr (disk : after.disk = p.disk) (root : after.root = p.root) :
    after.Strands t path ↔ p.Strands t path := by
  simp only [Strands, HasManifest, contentAt, disk, root]

end Project

namespace Run

variable {now : Moment} {options : Options} {s : Schema} {p : Project} {m : Manifest}
  {begun : Report}

/-- The last step only adds to the report. -/
theorem extends_saveManifest (now : Moment) (options : Options) (run : Run) :
    run.report.Extends (saveManifest now options run).2.report := by
  unfold saveManifest
  dsimp only
  split
  · exact ⟨rfl, rfl, rfl, rfl, List.prefix_rfl, id⟩
  · refine ⟨rfl, rfl, rfl, rfl, List.prefix_rfl, fun clean => ?_⟩
    simp [isClean, Report.addStep, log] at clean
  · exact .refl _

/-- Whether or not it comes to its end, a run spares the file of the manifest, or it has made its
files and saves the manifest with what it tracks then. -/
theorem saved_of_apply (now : Moment) (options : Options) (s : Schema) (p : Project) (m : Manifest)
    (begun : Report) :
    Project.Spares Store.manifestNames p
      (apply now options s (planned options s p m begun)).2.project ∨
      ∃ made tracked stored, makeFiles now options s (planned options s p m begun) =
        (.ok (), made) ∧ made.reconciliation.manifest? = some tracked ∧
        stored = toSave now s (isClean made.report && options.only.isEmpty) tracked ∧
        (apply now options s (planned options s p m begun)).2.project.HasManifest
          stored.recount.stored ∧
        made.report.Extends (apply now options s (planned options s p m begun)).2.report := by
  have spared := spares_makeFiles now options s p m begun
  unfold apply
  cases making : makeFiles now options s (planned options s p m begun) with
  | mk outcome made =>
    rw [making] at spared
    cases outcome with
    | error e => exact .inl spared
    | ok _ =>
      obtain ⟨-, -, schema, store, tracked, known, -⟩ := spares_of_makeFiles making
      dsimp only
      rcases @saved_of_saveManifest now options made tracked s known schema
        store with absent | ⟨saved, done, entered⟩
      · exact .inl (spared.trans (absent.spares not_false))
      · exact .inr ⟨made, tracked, _, rfl, known, rfl, Project.hasManifest_of_save done entered,
          extends_saveManifest now options made⟩

end Run

namespace Generation

/-- A run from a schema, or from the file that holds it, and what it comes to. -/
inductive Leads (now : Moment) (options : Options) (s : Schema) (p : Project)
    (outcome : Except Stop Report) (after : Project) : Prop where
  | ofSchema (strict : Bool) (ran : generate now options strict s p = (outcome, after))
  | ofFile (path : Path) (loaded : Schema.load p.disk path = .ok s)
      (ran : generateFromFile now options path p = (outcome, after))

variable {now : Moment} {options : Options} {s t : Schema} {p after : Project}
  {outcome : Except Stop Report} {path : String}

/-- Every run comes to something. -/
theorem exists_leads (now : Moment) (options : Options) (s : Schema) (p : Project) :
    ∃ outcome after, Leads now options s p outcome after :=
  ⟨(generate now options false s p).1, (generate now options false s p).2, .ofSchema false rfl⟩

/-- A run that goes beyond its plan from a manifest that was loaded. -/
def Proceeds (now : Moment) (options : Options) (s : Schema) (p : Project)
    (outcome : Except Stop Report) (after : Project)
    (m : Manifest) : Prop :=
  ({} : Store).load p = .ok m ∧ ∃ begun result run,
    Run.apply now options s (Run.planned options s p m begun) = (result, run) ∧
    run.project = after ∧ ∀ report, outcome = .ok report → run.report = report

theorem proceeds_of_decided {m : Manifest} {start : Report} (loaded : ({} : Store).load p = .ok m)
    (h : (outcome, after) = decided now options s p m start) :
    after = p ∨ Proceeds now options s p outcome after m := by
  unfold decided at h
  split at h
  · exact .inl (Prod.mk.inj h).2
  · split at h
    · exact .inl (Prod.mk.inj h).2
    · obtain ⟨result, run, applied⟩ :
        ∃ result run, Run.apply now options s (Run.planned options s p m start) = (result, run) :=
        ⟨_, _, Prod.mk.eta.symm⟩
      rw [applied] at h
      refine .inr ⟨loaded, start, result, run, applied, (project_ended (result, run)).symm.trans
        (congrArg Prod.snd h).symm, ?_⟩
      rintro report rfl
      obtain ⟨_, same, reported, -⟩ := ended_eq_ok h.symm
      exact (Prod.mk.inj same).2 ▸ reported

theorem proceeds_of_continueWith {strict : Bool} {start : Report}
    (h : continueWith now options strict s p start = (outcome, after)) :
    after = p ∨ ∃ m, Proceeds now options s p outcome after m := by
  cases opens_continueWith h with
  | stopped cause eq => exact .inl (Prod.mk.inj eq).2
  | refused report eq => exact .inl (Prod.mk.inj eq).2
  | planned m valid loads printable eq =>
    exact (proceeds_of_decided loads eq).imp_right fun proceeds => ⟨m, proceeds⟩

/-- A run leaves the project as it is, or it goes beyond its plan. -/
theorem proceeds_of_leads (h : Leads now options s p outcome after) :
    after = p ∨ ∃ m, Proceeds now options s p outcome after m := by
  cases h with
  | ofSchema strict ran => exact proceeds_of_continueWith ran
  | ofFile path loaded ran =>
    simp only [generateFromFile, loaded] at ran
    exact proceeds_of_continueWith ran

/-- How a run strands a path for a schema. -/
inductive Stranding (now : Moment) (options : Options) (s t : Schema) (p : Project)
    (outcome : Except Stop Report) (after : Project) (path : String) : Prop where
  /-- A merge of all components keeps the path and stamps the schema, which does not require it. -/
  | merged (before stored : Manifest) (loaded : ({} : Store).load p = .ok before)
      (merges : options.mode = .merge) (all : options.only = []) (same : s.hash = t.hash)
      (kept : path ∈ before.obsolete s) (held : after.HasManifest stored)
      (stamped : stored.schemaHash = some s.hash)
  /-- A run of another schema that is partial or fails makes or keeps the path and saves it under
  the digest of the schema that was generated before, which does not require it. -/
  | unstamped (before stored : Manifest) (loaded : ({} : Store).load p = .ok before)
      (other : s.hash ≠ t.hash) (earlier : before.schemaHash = some t.hash)
      (unfinished : options.only ≠ [] ∨ ∀ report, outcome = .ok report → report.isSuccess = false)
      (required : Pattern.anyCovers s.requiredArtifacts path = true)
      (held : after.HasManifest stored) (stamped : stored.schemaHash = some t.hash)
      (tracked : path ∈ stored.obsolete t)

theorem isClean_of_isSuccess {report : Report} (success : report.isSuccess = true) :
    Run.isClean report = true := by
  simp only [Report.isSuccess, Bool.and_eq_true] at success
  simp only [Run.isClean, Bool.and_eq_true]
  exact ⟨⟨success.1.1.2, success.1.2⟩, success.2⟩

/-- Saving a manifest leaves what it tracks alone. -/
theorem mem_obsolete_saved {m : Manifest} {stamp : Bool} :
    path ∈ (Run.toSave now s stamp m).recount.stored.obsolete t ↔ path ∈ m.obsolete t := by
  rw [Manifest.mem_obsolete, Manifest.mem_obsolete, Manifest.mem_trackedPaths_stored]
  cases stamp <;> exact Iff.rfl

/-- What the manifest strands that a run saves. -/
theorem stranding_of_saved {begun : Report} {made : Run} {before tracked : Manifest}
    (ordinary : s.IsOrdinary) (ordinary' : t.IsOrdinary) (apart : s.AreToldApart t)
    (settled : ¬ p.Strands t path)
    (loaded : ({} : Store).load p = .ok before)
    (making : Run.makeFiles now options s (Run.planned options s p before begun) = (.ok (), made))
    (known : made.reconciliation.manifest? = some tracked)
    (held : after.HasManifest
      (Run.toSave now s (Run.isClean made.report && options.only.isEmpty) tracked).recount.stored)
    (reports : ∀ report, outcome = .ok report → made.report.Extends report)
    (stamped : (Run.toSave now s (Run.isClean made.report && options.only.isEmpty)
      tracked).schemaHash = some t.hash)
    (obsolete : path ∈ tracked.obsolete t) : Stranding now options s t p outcome after path := by
  have same := ordinary.requiredArtifacts_eq ordinary' apart
  obtain ⟨_, -, -, plain⟩ := ordinary
  obtain ⟨_, known', within, absent⟩ := Run.obsolete_of_makeFiles plain making
  obtain rfl := Option.some.inj (known.symm.trans known')
  obtain ⟨-, -, -, -, _, known', hash⟩ := Run.spares_of_makeFiles making
  obtain rfl := Option.some.inj (known.symm.trans known')
  -- a path that is obsolete for the schema of the run was so before
  have before_of (isObsolete : path ∈ tracked.obsolete s) : path ∈ before.obsolete s :=
    (within path).1 isObsolete
  cases stamp : (Run.isClean made.report && options.only.isEmpty) with
  | true =>
    rw [stamp] at stamped held
    obtain ⟨clean, all⟩ := Bool.and_eq_true_iff.1 stamp
    have one : s.hash = t.hash := Option.some.inj stamped
    have isObsolete : path ∈ tracked.obsolete s := by
      rw [Manifest.mem_obsolete, same one, ← Manifest.mem_obsolete]
      exact obsolete
    cases mode : options.mode with
    | clean =>
      rw [absent mode clean] at isObsolete
      exact absurd isObsolete List.not_mem_nil
    | merge =>
      exact .merged before _ loaded mode (List.isEmpty_iff.1 all) one
        (before_of isObsolete) held rfl
    | preview =>
      have never := making
      simp [Run.makeFiles, Run.cleanUp, Run.planned, mode, Reconciliation.reconcile,
        Reconciliation.expect, Reconciliation.refuse, Reconciliation.manifest,
        Reconciliation.known] at never
  | false =>
    rw [stamp] at stamped held
    have earlier : before.schemaHash = some t.hash := hash.symm.trans stamped
    -- what was tracked before is not obsolete, since the project was settled
    have fresh : path ∉ before.trackedPaths := fun isTracked => settled
      ⟨before, Project.hasManifest_of_load loaded earlier, earlier,
        Manifest.mem_obsolete.2 ⟨isTracked, (Manifest.mem_obsolete.1 obsolete).2⟩⟩
    have required : Pattern.anyCovers s.requiredArtifacts path = true := by
      by_contra apart'
      rw [Bool.not_eq_true] at apart'
      have left :=
        before_of (Manifest.mem_obsolete.2 ⟨(Manifest.mem_obsolete.1 obsolete).1, apart'⟩)
      exact fresh (Manifest.mem_obsolete.1 left).1
    have other : s.hash ≠ t.hash := by
      intro one
      rw [same one] at required
      exact Bool.false_ne_true ((Manifest.mem_obsolete.1 obsolete).2.symm.trans required)
    refine .unstamped before _ loaded other earlier ?_ required held stamped
      (mem_obsolete_saved.2 obsolete)
    rcases Bool.and_eq_false_iff.1 stamp with dirty | partial_
    · refine .inr fun report ended => ?_
      rw [Bool.eq_false_iff]
      intro success
      exact Bool.false_ne_true
        (dirty.symm.trans ((reports report ended).clean (isClean_of_isSuccess success)))
    · exact .inl fun all => by simp [all] at partial_

/-- A merge keeps what is obsolete tracked, so that its stamp strands it. -/
theorem strands_of_merged {before stored : Manifest} (ordinary : s.IsOrdinary)
    (ordinary' : t.IsOrdinary) (apart : s.AreToldApart t) (settled : ¬ p.Strands t path)
    (h : Leads now options s p outcome after)
    (loaded : ({} : Store).load p = .ok before) (merges : options.mode = .merge)
    (one : s.hash = t.hash) (kept : path ∈ before.obsolete s) (held : after.HasManifest stored)
    (stamped : stored.schemaHash = some s.hash) :
    after.Strands t path := by
  have same := ordinary.requiredArtifacts_eq ordinary' apart one
  have obsolete_iff (m : Manifest) : path ∈ m.obsolete s ↔ path ∈ m.obsolete t := by
    rw [Manifest.mem_obsolete, same, ← Manifest.mem_obsolete]
  -- a manifest that is only kept was the one that was loaded
  have unsaved (spared : Project.Spares Store.manifestNames p after) : after.Strands t path := by
    have was : p.HasManifest stored := held.of_spares spared
    rcases Store.load_eq_ok loaded with ⟨-, rfl⟩ | ⟨bytes, stands, parsed⟩
    · exact absurd kept List.not_mem_nil
    · obtain rfl := was.unique ⟨bytes, Store.namesOf_manifestPath ▸ stands.contentAt, parsed⟩
      exact absurd ⟨stored, was, one ▸ stamped, (obsolete_iff stored).1 kept⟩ settled
  obtain ⟨_, -, -, plain⟩ := ordinary
  rcases proceeds_of_leads h with rfl | ⟨before', loaded', begun, result, run,
    applied, rfl, reports⟩
  · exact unsaved ⟨rfl, .refl _, .inl rfl⟩
  · obtain rfl := Except.ok.inj (loaded.symm.trans loaded')
    rcases Run.saved_of_apply now options s p before begun with spared | ⟨made, tracked, _, making,
      known, rfl, saved, -⟩
    · rw [applied] at spared
      exact unsaved spared
    · rw [applied] at saved
      obtain rfl := saved.unique held
      obtain ⟨_, known', within, -⟩ := Run.obsolete_of_makeFiles plain making
      obtain rfl := Option.some.inj (known.symm.trans known')
      exact ⟨_, held, one ▸ stamped,
        (obsolete_iff _).1 (mem_obsolete_saved.2 ((within path).2 merges kept))⟩

/-- A run strands a path that was not stranded before in two ways only. -/
theorem strands_iff_of_leads (ordinary : s.IsOrdinary) (ordinary' : t.IsOrdinary)
    (apart : s.AreToldApart t) (settled : ¬ p.Strands t path)
    (h : Leads now options s p outcome after) :
    after.Strands t path ↔ Stranding now options s t p outcome after path := by
  constructor
  · intro strands
    rcases proceeds_of_leads h with rfl | ⟨before, loaded, begun, result, run,
      applied, rfl, reports⟩
    · exact absurd strands settled
    · rcases Run.saved_of_apply now options s p before begun with spared | ⟨made, tracked, _,
        making, known, rfl, held, extends_⟩
      · rw [applied] at spared
        exact absurd (strands.of_spares spared) settled
      · rw [applied] at held extends_
        obtain ⟨m, held', stamped, obsolete⟩ := strands
        obtain rfl := held.unique held'
        exact stranding_of_saved ordinary ordinary' apart settled loaded making known held
          (fun report ended => reports report ended ▸ extends_) stamped
            (mem_obsolete_saved.1 obsolete)
  · rintro (⟨before, stored, loaded, merges, all, same, kept, held, stamped⟩ |
      ⟨before, stored, loaded, other, earlier, unfinished, required, held, stamped, tracked⟩)
    · exact strands_of_merged ordinary ordinary' apart settled h loaded merges same
        kept held stamped
    · exact ⟨stored, held, stamped, tracked⟩

/-- A run with the project before it and after it. -/
structure Turn where
  now : Moment
  options : Options
  schema : Schema
  before : Project
  outcome : Except Stop Report
  after : Project
  leads : Leads now options schema before outcome after

namespace Turn

/-- A turn begins with the files that the one before left. -/
def Next (a b : Turn) : Prop := b.before.disk = a.after.disk ∧ b.before.root = a.after.root

/-- A turn strands a path for a schema of a family. -/
def Strands (family : Schema → Prop) (turn : Turn) : Prop :=
  ∃ t path, family t ∧
    Stranding turn.now turn.options turn.schema t turn.before turn.outcome turn.after path

variable {family : Schema → Prop} {turn : Turn}

theorem isSettled_after_iff (ordinary : ∀ s, family s → s.IsOrdinary)
    (apart : ∀ s t, family s → family t → s.AreToldApart t)
    (isIn : family turn.schema) (settled : turn.before.IsSettled family) :
    turn.after.IsSettled family ↔ ¬ turn.Strands family := by
  have each {t : Schema} {path : String}
    (isIn' : family t) := strands_iff_of_leads (ordinary _ isIn) (ordinary t isIn')
    (apart _ t isIn isIn') (settled t path isIn') turn.leads
  constructor
  · rintro after ⟨t, path, isIn', stranding⟩
    exact after t path isIn' ((each isIn').2 stranding)
  · intro never t path isIn' strands
    exact never ⟨t, path, isIn', (each isIn').1 strands⟩

theorem Next.isSettled {a b : Turn} (next : Next a b) (settled : a.after.IsSettled family) :
    b.before.IsSettled family :=
  fun t path isIn strands => settled t path isIn ((Project.strands_congr next.1 next.2).1 strands)

end Turn

/-- In a sequence of runs of ordinary schemas, whatever their options and outcomes and whatever is
refused meanwhile, a manifest with the digest of a schema tracks what that schema requires and
nothing else after every run, exactly when no run strands a path. -/
theorem isSettled_iff {family : Schema → Prop} (ordinary : ∀ s, family s → s.IsOrdinary)
    (apart : ∀ s t, family s → family t → s.AreToldApart t) {turns : List Turn}
    (among : ∀ turn ∈ turns, family turn.schema) (chained : turns.IsChain Turn.Next)
    (start : ∀ turn ∈ turns.head?, turn.before.IsSettled family) :
    (∀ turn ∈ turns, turn.after.IsSettled family) ↔ ∀ turn ∈ turns, ¬ turn.Strands family := by
  induction turns with
  | nil => simp
  | cons turn rest ih =>
    have first :=
      turn.isSettled_after_iff ordinary apart (among turn (List.mem_cons_self ..)) (start turn rfl)
    rw [List.forall_mem_cons, List.forall_mem_cons, ← first]
    refine and_congr_right fun settled =>
      ih (fun other mem => among other (List.mem_cons_of_mem turn mem)) chained.tail ?_
    intro next isNext
    cases rest with
    | nil => cases isNext
    | cons other rest =>
      obtain rfl := Option.some.inj isNext
      exact (List.isChain_cons_cons.1 chained).1.isSettled settled

theorem Turn.exists_ofSchema (now : Moment) (options : Options) (s : Schema) (p : Project) :
    ∃ turn : Turn, turn.options = options ∧ turn.schema = s ∧ turn.before = p := by
  obtain ⟨outcome, after, leads⟩ := exists_leads now options s p
  exact ⟨⟨now, options, s, p, outcome, after, leads⟩, rfl, rfl, rfl⟩

/-- The document of a schema of one entity with one field. -/
def tagDocument : Json.Members :=
  [("meta", .object []),
    ("models", .object [("Tag", .object [("fields", .object [("label", .string "string")])])])]

theorem isOrdinary_tagSchema : tagSchema.IsOrdinary := by
  have checked : succeeds (Schema.build tagDocument) (fun _ => true) = true := by decide +kernel
  obtain ⟨s, built, -⟩ := succeeds_eq_true.1 checked
  have same : tagSchema = s := by
    rw [tagSchema]
    simp only [tagDocument] at built
    simp only [built]
  exact ⟨tagDocument, ⟨by decide +kernel, by decide +kernel⟩, same ▸ built, by decide +kernel⟩

/-- A clean run in a new project, and a merge after it. -/
theorem isSettled_iff_newProject :
    ∃ first second : Turn, first.before = newProject ∧ second.before = first.after ∧
    second.options.mode = .merge ∧ [first, second].IsChain Turn.Next ∧
    newProject.IsSettled (· = tagSchema) ∧
      ((∀ turn ∈ [first, second], turn.after.IsSettled (· = tagSchema)) ↔
        ∀ turn ∈ [first, second], ¬ turn.Strands (· = tagSchema)) := by
  obtain ⟨first, -, isTag, new⟩ := Turn.exists_ofSchema noon {} tagSchema newProject
  obtain ⟨second, merges, isTag', next⟩ :=
    Turn.exists_ofSchema noon { mode := .merge } tagSchema first.after
  have start : newProject.IsSettled (· = tagSchema) := by
    rintro t path - ⟨m, ⟨bytes, content, -⟩, -⟩
    have absent : newProject.contentAt Store.manifestNames = none := by decide
    cases absent.symm.trans content
  have chained : [first, second].IsChain Turn.Next := by simp [Turn.Next, next]
  have among : ∀ turn ∈ [first, second], turn.schema = tagSchema := by simp [isTag, isTag']
  refine ⟨first, second, new, next,
    by rw [merges], chained, start, isSettled_iff ?_ ?_ among chained ?_⟩
  · rintro s rfl
    exact isOrdinary_tagSchema
  · rintro s t rfl rfl -
    rfl
  · intro turn isFirst
    obtain rfl := Option.some.inj isFirst
    exact new ▸ start

/-- A schema of another entity. -/
def postSchema : Schema :=
  let fields : Json := .object [("title", .string "string")]
  match Schema.build [("meta", .object []),
      ("models", .object [("Post", .object [("fields", fields)])])] with
  | .ok s => s
  | .error _ => Manifest.noSchema

/-- A project with a manifest that is stamped with that schema. -/
def postProject : Project :=
  (({} : Store).save (({} : Manifest).stamp postSchema noon) newProject).2

/-- What the next run finds there. -/
def postManifest : Manifest := (({} : Manifest).stamp postSchema noon).recount.stored

theorem load_postProject : ({} : Store).load postProject = .ok postManifest := by
  have checked : succeeds (({} : Store).save (({} : Manifest).stamp postSchema noon) newProject).1
      (fun _ => true) = true := by
    decide +kernel
  obtain ⟨⟨⟩, done, -⟩ := succeeds_eq_true.1 checked
  have granted : postProject.denials = [] :=
    congrArg Project.denials (Store.touches_save {} _ newProject).same
  have whole : ({ postProject with denials := [] } : Project) = postProject := by rw [← granted]
  rw [← whole]
  exact load_of_save (Prod.fst_eq_iff.1 done) (.refl ..)

/-- The options of a run that makes models only, whether or not the schema has changed. -/
def modelsOnly : Options := { only := [.models], force := true }

/-- The models of the first schema are made in the project of the other one. -/
theorem success_postProject :
    ∃ report after, generate noon modelsOnly false tagSchema postProject = (.ok report, after) ∧
    report.plan ≠ none ∧ report.unchanged = false ∧ report.isSuccess = true := by
  have checked : goesWell noon modelsOnly tagSchema postProject postManifest (fun _ => true) =
    true := by decide +kernel
  obtain ⟨-, report, after, -, ran, planned, past, success, -, -⟩ :=
    success_of_goesWell (by decide) load_postProject checked
  exact ⟨report, after, ran, planned, past, success⟩

/-- A run can strand a path: it makes a file and saves it under the digest of another schema. -/
theorem partial_run_strands :
    ¬ ∀ (family : Schema → Prop) (turns : List Turn), turns.IsChain Turn.Next →
    (∀ turn ∈ turns, turn.schema.findings.isValid = true) →
    (∀ turn ∈ turns.head?, turn.before.IsSettled family) →
      ∀ turn ∈ turns, turn.after.IsSettled family := by
  intro claimed
  have loaded := load_postProject
  have stamped : postManifest.schemaHash = some postSchema.hash := rfl
  have untracked : postManifest.trackedPaths = [] := by decide +kernel
  obtain ⟨report, after, ran, planned, past, success⟩ := success_postProject
  have plain : tagSchema.HasPlainNames := by decide +kernel
  have acts : modelsOnly.mode ≠ .preview := by decide
  have settled : postProject.IsSettled (· = postSchema) := by
    rintro t path rfl ⟨m, held, -, obsolete⟩
    obtain rfl := held.unique (Project.hasManifest_of_load loaded stamped)
    rw [Manifest.mem_obsolete, untracked] at obsolete
    exact absurd obsolete.1 List.not_mem_nil
  have runs : Runs noon modelsOnly tagSchema postProject report after := .ofSchema false ran
  obtain ⟨⟨valid, -⟩, m, begun, run, loaded', -, -, applied, rfl, rfl⟩ :=
    applied_of_runs acts runs planned past
  obtain rfl := Except.ok.inj (loaded.symm.trans loaded')
  -- the manifest is saved without a stamp
  obtain ⟨made, tracked, making, known, -, -, hash, saves⟩ := saves_of_apply applied
  obtain ⟨clean, saved, done, entered⟩ := saved_of_success saves success
  have unstamped : (Run.isClean made.report && modelsOnly.only.isEmpty) = false := Bool.and_false _
  rw [unstamped] at done
  have kept : (Run.toSave noon tagSchema false tracked).recount.stored.schemaHash =
    some postSchema.hash := hash.trans stamped
  have held := Project.hasManifest_of_load (load_of_save done entered) kept
  -- it tracks the model that was made
  have made : made.HasMade "app/Models/Tag.php" := by
    obtain ⟨-, -, ready, emitted, -, -, -, -, -, -, -, -, -, emitting, project, reconciliation,
      further⟩ := Run.makeFiles_eq_ok making
    have page : tagSchema.IsPage "app/Models/Tag.php" :=
      ⟨"app/Models", by decide, "Tag", by decide +kernel, by decide⟩
    have among : ∃ e ∈ Emission.ofSchema tagSchema modelsOnly tagSchema.dependencyOrder,
        e.artifact = "app/Models/Tag.php" := by
      decide +kernel
    obtain ⟨m, content, known, faithful⟩ : emitted.HasMade "app/Models/Tag.php" :=
      Run.hasMade_emitAll plain page (fun _ => id) emitting (further.clean clean) (.inr among)
    exact ⟨m, content, reconciliation ▸ known, project ▸ faithful⟩
  obtain ⟨_, content, known', faithful⟩ := made
  obtain rfl := Option.some.inj (known.symm.trans known')
  have apart : Pattern.anyCovers postSchema.requiredArtifacts "app/Models/Tag.php" = false := by
    decide +kernel
  have obsolete : "app/Models/Tag.php" ∈
    (Run.toSave noon tagSchema false tracked).recount.stored.obsolete postSchema :=
    mem_obsolete_saved.2 (Manifest.mem_obsolete.2 ⟨faithful.tracked, apart⟩)
  have after :=
    claimed (· = postSchema) [⟨noon, modelsOnly, tagSchema, postProject, .ok run.report,
      run.project, .ofSchema false ran⟩]
    (by simp) (by simpa using valid) (by simpa using settled) _ (List.mem_singleton.2 rfl)
  exact after postSchema "app/Models/Tag.php" rfl ⟨_, held, kept, obsolete⟩

end Generation
end Scaffold
