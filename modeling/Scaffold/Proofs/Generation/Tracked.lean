import Scaffold.Proofs.Generation.PlainNames

/-!
# What a run comes to track

Making the files of a schema with plain names leaves what is obsolete as it was: what it tracks is
required, and it forgets only what its own migrations replace (`Run.keepsObsolete_emitAll`). When no
failure is reported, every page that is made stands where it was written and is recorded as it
stands, and no later file changes that (`Run.hasMade_emitAll`).
-/

namespace Scaffold
set_option autoImplicit false

namespace Emission

variable {s : Schema} {options : Options} {order : List String} {emission : Emission}
  {path : String}

/-- What making a file tracks or forgets is required. -/
theorem anyCovers_of_tracked (plain : s.HasPlainNames) (mem : emission ∈ ofSchema s options order)
    (tracked : emission.Tracked path) : Pattern.anyCovers s.requiredArtifacts path = true := by
  have required := artifact_mem mem
  cases emission with
  | whole kind path text metadata => exact tracked ▸ Schema.anyCovers_of_mem required
  | merged kind path markers body fresh anchor indent =>
    exact tracked ▸ Schema.anyCovers_of_mem required
  | migration suffix text metadata =>
    have bare := plain.isBare_of_required required
    refine Schema.anyCovers_of_covers required ?_
    cases tracked with
    | named moment eq => exact eq ▸ Artifact.covers_migrationPath bare moment
    | covered covered => exact covered
    | found p files found mem => exact Artifact.covers_of_mem_glob bare found mem

/-- Making another file neither touches a page nor tracks or forgets it. -/
theorem spares_page (plain : s.HasPlainNames) (mem : emission ∈ ofSchema s options order)
    (page : s.IsPage path) (apart : path ≠ emission.artifact) :
    ¬ emission.Touched (namesOf path) ∧ ¬ emission.Tracked path := by
  have required := artifact_mem mem
  cases emission with
  | whole kind other text metadata => exact ⟨plain.namesOf_ne page required apart, apart⟩
  | merged kind other markers body fresh anchor indent =>
    exact ⟨plain.namesOf_ne page required apart, apart⟩
  | migration suffix text metadata =>
    have bare := plain.isBare_of_required required
    refine ⟨plain.not_prefix_page page, fun tracked => plain.not_prefix_page page ?_⟩
    cases tracked with
    | named moment eq => exact eq ▸ Run.prefix_migrationPath moment suffix
    | covered covered => exact Artifact.prefix_of_covers bare covered
    | found p files found mem => exact Run.prefix_of_mem_migrations found path mem

end Emission

namespace Run

variable {now : Moment} {mode : Mode} {options : Options} {s : Schema} {order : List String}
  {touched : List String → Prop} {tracked : String → Prop} {run after : Run} {path : String}

/-- The same tracked paths are obsolete after a piece of a run as before. -/
def KeepsObsolete (s : Schema) (before after : Run) : Prop :=
  ∀ m, before.reconciliation.manifest? = some m → ∃ left,
    after.reconciliation.manifest? = some left ∧ ∀ path, path ∈ left.obsolete s ↔
    path ∈ m.obsolete s

/-- A manifest in which only records of required paths come and go. -/
theorem obsolete_iff {m left : Manifest}
    (same : ∀ path, Pattern.anyCovers s.requiredArtifacts path = false →
      (path ∈ left.trackedPaths ↔ path ∈ m.trackedPaths))
    (path : String) : path ∈ left.obsolete s ↔ path ∈ m.obsolete s := by
  rw [Manifest.mem_obsolete, Manifest.mem_obsolete]
  exact and_congr_left fun apart => same path apart

theorem Changes.keepsObsolete
    (required : ∀ path, tracked path → Pattern.anyCovers s.requiredArtifacts path = true)
    (h : Changes now touched tracked run after) : KeepsObsolete s run after := by
  intro m known
  obtain ⟨left, known, records⟩ := h.records known
  refine ⟨left, known, obsolete_iff fun path apart => ?_⟩
  have untracked : ¬ tracked path :=
    fun isTracked => Bool.false_ne_true (apart.symm.trans (required path isTracked))
  rw [Manifest.mem_trackedPaths, Manifest.mem_trackedPaths]
  exact exists_congr fun r => and_congr_left fun same => records r (same ▸ untracked)

/-- Making the files of a schema leaves what is obsolete as it was. -/
theorem keepsObsolete_emitAll (plain : s.HasPlainNames) :
    KeepsObsolete s run (emitAll now mode (Emission.ofSchema s options order) run).2 :=
  (changes_emitAll (fun _ _ _ _ => trivial) fun _ mem _ tracked =>
    Emission.anyCovers_of_tracked plain mem tracked :
    Changes now (fun _ => True) (Pattern.anyCovers s.requiredArtifacts · = true) _ _).keepsObsolete
      fun _ => id

/-- A file stands at a path and is recorded as it stands. -/
def HasMade (run : Run) (path : String) : Prop :=
  ∃ m content, run.reconciliation.manifest? = some m ∧ m.Faithful run.project path content

/-- A change elsewhere leaves a file and its record alone. -/
theorem HasMade.of_change (made : run.HasMade path) (h : Change now touched tracked run after)
    (untouched : ¬ touched (namesOf path)) (untracked : ¬ tracked path) : after.HasMade path := by
  obtain ⟨m, content, known, faithful⟩ := made
  cases h with
  | noted report further => exact ⟨m, content, known, faithful⟩
  | counted migrations => exact ⟨m, content, known, faithful⟩
  | worked project changed =>
    exact ⟨m, content, known, faithful.stands.of_touches changed untouched, faithful.tracked,
      faithful.records⟩
  | recorded kind other metadata record m' left isTracked known' recorded =>
    obtain rfl := Option.some.inj (known.symm.trans known')
    obtain ⟨record', -, eq⟩ := map_eq_ok.1 recorded
    obtain ⟨rfl, rfl⟩ := Prod.mk.inj eq
    have apart : path ≠ other := fun same => untracked (same ▸ isTracked)
    exact ⟨_, content, rfl, faithful.track (.refl (fun _ => False) _) id apart⟩
  | forgot other m' isTracked known' =>
    obtain rfl := Option.some.inj (known.symm.trans known')
    have apart : path ≠ other := fun same => untracked (same ▸ isTracked)
    exact ⟨_, content, rfl, faithful.remove apart⟩

theorem HasMade.of_changes (made : run.HasMade path) (h : Changes now touched tracked run after)
    (untouched : ¬ touched (namesOf path)) (untracked : ¬ tracked path) : after.HasMade path := by
  induction h with
  | refl => exact made
  | tail _ change ih => exact ih.of_change change untouched untracked

/-- A file that is recorded without a failure is recorded as it stands. -/
theorem hasMade_of_record {kind : ArtifactKind} {action : FileAction} {metadata : Json.Members}
    (found : run.project.fileExists path = .ok true)
    (h : record now kind path action metadata run = (.ok (), after))
    (clean : isClean after.report = true) : after.HasMade path := by
  unfold record at h
  split at h
  · rename_i written reconciliation recorded
    obtain ⟨-, rfl⟩ := Prod.mk.inj h
    obtain ⟨m, left, -, made, rfl⟩ := Reconciliation.record_eq_ok recorded
    obtain ⟨content, stands⟩ := Manifest.stands_of_trackFile found made
    exact ⟨left, content, rfl, (Manifest.faithful_of_trackFile stands made).2⟩
  · obtain ⟨-, rfl⟩ := Prod.mk.inj h
    exact absurd clean (not_isClean_failed _ _ _ _)
  · cases (Prod.mk.inj h).1

/-- A file that is written without a failure is recorded as it was written. -/
theorem hasMade_of_store {kind : ArtifactKind} {action : FileAction} {text : String}
    {metadata : Json.Members} (named : namesOf path ≠ [])
    (h : store now kind path action text metadata run = (.ok (), after))
    (clean : isClean after.report = true) : after.HasMade path := by
  unfold store at h
  cases written : run.project.writeText path text with
  | mk outcome project =>
    rw [written] at h
    cases outcome with
    | ok size =>
      dsimp only at h
      rw [Project.writeText] at written
      refine hasMade_of_record ?_ h clean
      exact Project.fileExists_of_stands (Project.stands_of_write named written)
    | error e =>
      cases e with
      | failure f =>
        obtain ⟨-, rfl⟩ := Prod.mk.inj h
        exact absurd clean (not_isClean_failed _ _ _ _)
      | _ => cases (Prod.mk.inj h).1

theorem hasMade_of_storeRendered {kind : ArtifactKind} {action : FileAction}
    {text : Except Text.NumeralError String} {metadata : Json.Members} (named : namesOf path ≠ [])
    (h : storeRendered now kind path action text metadata run = (.ok (), after))
    (clean : isClean after.report = true) : after.HasMade path := by
  unfold storeRendered at h
  split at h
  · exact hasMade_of_store named h clean
  · obtain ⟨-, rfl⟩ := Prod.mk.inj h
    exact absurd ((Report.isClean_addRenderFailure ..).symm.trans clean) Bool.false_ne_true

theorem hasMade_emitWhole {kind : ArtifactKind} {text : Except Text.NumeralError String}
    {metadata : Json.Members} (named : namesOf path ≠ [])
    (h : emitWhole now mode kind path text metadata run = (.ok (), after))
    (clean : isClean after.report = true) : after.HasMade path := by
  unfold emitWhole at h
  split at h
  · cases (Prod.mk.inj h).1
  · rename_i found
    split at h
    · exact hasMade_of_record found h clean
    · exact hasMade_of_storeRendered named h clean
  · exact hasMade_of_storeRendered named h clean

theorem hasMade_emitMerged {kind : ArtifactKind} {markers : Markers} {body : List String}
    {fresh : String} {anchor : Option String} {indent : String} (named : namesOf path ≠ [])
    (h : emitMerged now kind path markers body fresh anchor indent run = (.ok (), after))
    (clean : isClean after.report = true) : after.HasMade path := by
  unfold emitMerged at h
  split at h
  · cases (Prod.mk.inj h).1
  · exact hasMade_of_store named h clean
  · split at h
    · exact hasMade_of_store named h clean
    · obtain ⟨-, rfl⟩ := Prod.mk.inj h
      exact absurd clean (not_isClean_failed _ _ _ _)
    · cases (Prod.mk.inj h).1

/-- A file that is made without a failure is recorded as it stands. -/
theorem hasMade_emit {emission : Emission} (named : namesOf emission.artifact ≠ [])
    (plain : Pattern.isPattern emission.artifact = false)
    (h : emit now mode run emission = (.ok (), after))
    (clean : isClean after.report = true) : after.HasMade emission.artifact := by
  cases emission with
  | whole kind path text metadata => exact hasMade_emitWhole named h clean
  | merged kind path markers body fresh anchor indent => exact hasMade_emitMerged named h clean
  | migration suffix text metadata =>
    exact absurd (plain.symm.trans (Artifact.isPattern_migrationPattern suffix)) Bool.false_ne_true

/-- After files were made without a failure, each page among them stands and is recorded as it
stands. -/
theorem hasMade_emitAll (plain : s.HasPlainNames) (page : s.IsPage path) {emissions : List Emission}
    (among : ∀ e ∈ emissions, e ∈ Emission.ofSchema s options order)
    (h : emitAll now mode emissions run = (.ok (), after)) (clean : isClean after.report = true)
    (made : run.HasMade path ∨ ∃ e ∈ emissions, e.artifact = path) : after.HasMade path := by
  induction emissions generalizing run with
  | nil =>
    obtain ⟨-, rfl⟩ := Prod.mk.inj h
    exact made.resolve_right (by simp)
  | cons emission rest ih =>
    have further := fun e mem => among e (List.mem_cons_of_mem emission mem)
    unfold emitAll at h
    have changes := @changes_emit now mode run emission
    cases one : emit now mode run emission with
    | mk outcome between =>
      rw [one] at h changes
      cases outcome with
      | error e => cases (Prod.mk.inj h).1
      | ok _ =>
        dsimp only at h
        have others :
          Changes now (fun _ => True) (fun _ => True) between (emitAll now mode rest between).2 :=
          changes_emitAll (fun _ _ _ _ => trivial) fun _ _ _ _ => trivial
        rw [h] at others
        have soFar : isClean between.report = true := others.moved.report.clean clean
        by_cases here : path = emission.artifact
        · subst here
          exact ih further h (.inl (hasMade_emit page.named (plain.isPattern_page page) one soFar))
        · obtain ⟨untouched, untracked⟩ :=
            Emission.spares_page plain (among emission (List.mem_cons_self ..)) page here
          refine ih further h (made.imp
            (fun before => before.of_changes changes untouched untracked) ?_)
          rintro ⟨e, mem, same⟩
          rcases List.mem_cons.1 mem with rfl | mem
          · exact absurd same.symm here
          · exact ⟨e, mem, same⟩

end Run
end Scaffold
