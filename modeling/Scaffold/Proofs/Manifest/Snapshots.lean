import Scaffold.Proofs.Manifest.Entering
import Scaffold.Proofs.Manifest.RoundTrip

/-!
# Snapshots in the history

Saves to the history, one after another. None changes the content of a file that is there, and after
each of them the new entry stands, unless its name puts it before as many others as the history may
hold: `Store.stands_iff_of_saveEach`. Names that begin with the same moment are in the order of what
follows it, which is not the order of the saves. So an entry can be lost when as many snapshots of
its moment were saved before it as the history may hold, and never otherwise.
-/

namespace Scaffold
set_option autoImplicit false

/-- A manifest with the moment at which it enters the history. -/
structure Snapshot where
  manifest : Manifest
  moment : Moment

namespace Store

variable {store : Store} {p after : Project} {s : Snapshot} {snapshots : List Snapshot}
  {path : String} {kept : List String}

/-- Saves snapshots to the history, one after another, whether or not each of them can be saved. -/
def saveEach (store : Store) (snapshots : List Snapshot) (p : Project) : Project :=
  snapshots.foldl (fun p s => (store.saveToHistory s.manifest s.moment p).2) p

theorem saveEach_concat (snapshots : List Snapshot) (s : Snapshot) (p : Project) :
    store.saveEach (snapshots ++ [s]) p =
      (store.saveToHistory s.manifest s.moment (store.saveEach snapshots p)).2 := by
  rw [saveEach, List.foldl_append]
  rfl

/-- Nothing is in the directory of the history. -/
def HasNoHistory (store : Store) (p : Project) : Prop :=
  ∀ name, p.contentAt (store.directory ++ [name]) = none

/-- Every file in the directory of the history has the name that one of the snapshots was given. -/
structure Marked (store : Store) (marks : List (Snapshot × String)) (p : Project) : Prop where
  named : ∀ mark ∈ marks, IsEntryName mark.1.moment mark.2
  holds : ∀ name, (p.contentAt (store.directory ++ [name])).isSome = true →
    ∃ mark ∈ marks, mark.2 = name

variable {marks : List (Snapshot × String)}

/-- A save adds one name. -/
theorem Marked.saveToHistory (marked : Marked store marks p) (plain : store.IsPlain)
    (s : Snapshot) :
    ∃ name, Marked store (marks ++ [(s, name)]) (store.saveToHistory s.manifest s.moment p).2 := by
  obtain ⟨name, isEntry, new⟩ := isSome_contentAt_saveToHistory plain s.manifest s.moment p
  refine ⟨name, fun mark mem => ?_, fun other held => ?_⟩
  · rcases List.mem_append.1 mem with old | isNew
    · exact marked.named mark old
    · obtain rfl := List.mem_singleton.1 isNew
      exact isEntry
  · rcases new _ held with before | isNew
    · obtain ⟨mark, mem, rfl⟩ := marked.holds other before
      exact ⟨mark, List.mem_append_left _ mem, rfl⟩
    · rw [entryPath, namesOf_append, plain.namesOf_eq] at isNew
      have single := List.append_cancel_left isNew
      have flat : '/' ∉ name.toList := by
        intro deep
        have two := isEntry.two_le deep
        rw [← single] at two
        exact absurd two (by simp)
      rw [isEntry.namesOf_eq flat] at single
      exact ⟨(s, name), by simp, (List.singleton_inj.1 single).symm⟩

theorem exists_marked (plain : store.IsPlain) (new : store.HasNoHistory p)
    (snapshots : List Snapshot) : ∃ marks, marks.map Prod.fst = snapshots ∧
    Marked store marks (store.saveEach snapshots p) := by
  induction snapshots using List.reverseRecOn with
  | nil =>
    refine ⟨[], rfl, nofun, fun name held => ?_⟩
    rw [saveEach, List.foldl_nil, new name] at held
    cases held
  | append_singleton snapshots s ih =>
    obtain ⟨marks, rfl, marked⟩ := ih
    obtain ⟨name, more⟩ := marked.saveToHistory plain s
    exact ⟨_, List.map_append, saveEach_concat .. ▸ more⟩

/-- What the history holds besides the entry, it held before. -/
theorem Enters.mem_files_cases {m : Manifest} {now : Moment} {made written : Project}
    {text : String} {files : List String}
    (h : Enters store m now p path after made written text files) (plain : store.IsPlain)
    {file : String} (mem : file ∈ files) :
    file = path ∨ ∃ stem : String, file = store.entryPath (stem ++ ".json") ∧
      (p.contentAt (store.directory ++ [stem ++ ".json"])).isSome = true := by
  obtain ⟨stem, rfl, held⟩ := ((h.lists_files plain).holds file).1 mem
  by_cases here : store.directory ++ [stem ++ ".json"] = namesOf path
  · have flat : '/' ∉ (historyStem m now).toList := fun deep => h.ne_of_deep plain deep _ here.symm
    obtain ⟨stem', rfl, -, names⟩ := h.exists_flat plain flat
    rw [names] at here
    exact .inl (congrArg store.entryPath (List.singleton_inj.1 (List.append_cancel_left here)))
  · exact .inr ⟨stem, rfl, h.contentAt_written here ▸ held⟩

/-- Later entries were made by snapshots of the same moment, if none was of a later one. -/
theorem Enters.length_later_le {made written : Project} {text : String} {files : List String}
    (h : Enters store s.manifest s.moment p path after made written text files)
    (plain : store.IsPlain) (marked : Marked store marks p) (regular : s.moment.IsRegular)
    (regulars : ∀ mark ∈ marks, mark.1.moment.IsRegular)
    (orderly : ∀ mark ∈ marks, ¬ s.moment.reading < mark.1.moment.reading)
    (sublist : kept.Sublist files) :
    (kept.filter (path < ·)).length ≤
      ((marks.map Prod.fst).filter (·.moment.reading = s.moment.reading)).length := by
  have rises :=
    (h.lists_files plain).rises.sublist
      (List.filter_sublist.trans sublist : (kept.filter (path < ·)).Sublist files)
  have distinct : (kept.filter (path < ·)).Nodup :=
    rises.imp (fun lt same => String.lt_irrefl _ (same ▸ lt) : ∀ {a b : String}, a < b → a ≠ b)
  have within : kept.filter (path < ·) ⊆ (marks.filter (·.1.moment.reading = s.moment.reading)).map
      (store.entryPath ·.2) := by
    intro file mem
    obtain ⟨isKept, later⟩ := List.mem_filter.1 mem
    have later : path < file := by simpa using later
    rcases h.mem_files_cases plain (sublist.subset isKept) with rfl | ⟨stem, rfl, held⟩
    · exact absurd later (String.lt_irrefl _)
    · obtain ⟨mark, isMark, name⟩ := marked.holds _ held
      obtain ⟨own, rfl, isEntry, -⟩ := h.exists_name plain
      have isEntry' : IsEntryName mark.1.moment (stem ++ ".json") := name ▸ marked.named mark isMark
      have notEarlier : ¬ mark.1.moment.reading < s.moment.reading := fun earlier =>
        String.lt_irrefl _ (String.lt_trans later
          (entryPath_lt isEntry' isEntry (regulars mark isMark) regular earlier))
      have same : mark.1.moment.reading = s.moment.reading :=
        ((lt_trichotomy _ _).resolve_left notEarlier).resolve_right (orderly mark isMark)
      exact List.mem_map.2 ⟨mark, List.mem_filter.2 ⟨isMark, by simpa using same⟩, by rw [name]⟩
  refine (List.subperm_of_subset distinct within).length_le.trans_eq ?_
  rw [List.length_map, List.filter_map, List.length_map]
  rfl

/-- In every sequence of saves to the history, no save changes the content of a file that is there.
When it returns, its entry stands at the path it returned, with the snapshot, exactly when the entry
is below the directory of the history or has fewer entries after it than the history may hold. These
are never more than the snapshots of the same moment that were saved before it, provided none was of
a later moment and the history was new. -/
theorem stands_iff_of_saveEach (plain : store.IsPlain) (filled : 1 ≤ store.historyLimit)
    (snapshots : List Snapshot) (s : Snapshot) (p : Project) :
    (∀ names content, (store.saveEach snapshots p).contentAt names = .some content →
      (store.saveEach (snapshots ++ [s]) p).contentAt names = .some content ∨
        (store.saveEach (snapshots ++ [s]) p).contentAt names = none) ∧
    ∀ path after,
      store.saveToHistory s.manifest s.moment (store.saveEach snapshots p) = (.ok path, after) →
      ∃ text kept, printed (historyEntry s.manifest s.moment) = .ok text ∧
        store.historyFiles after = .ok kept ∧
        (after.Stands path text.toUTF8 ↔ '/' ∈ (historyStem s.manifest s.moment).toList ∨
          (kept.filter (path < ·)).length < store.historyLimit.toNat) ∧
        (store.HasNoHistory p → (∀ t ∈ s :: snapshots, t.moment.IsRegular) →
          (∀ t ∈ snapshots, ¬ s.moment.reading < t.moment.reading) →
            (kept.filter (path < ·)).length ≤
              (snapshots.filter (·.moment.reading = s.moment.reading)).length) := by
  refine ⟨fun names content held => ?_, fun path after returned => ?_⟩
  · rw [saveEach_concat]
    exact (contentAt_saveToHistory plain s.manifest s.moment _ held).imp_right And.left
  · obtain ⟨made, written, text, files, enters⟩ := enters_of_saveToHistory plain returned
    refine ⟨text, _, enters.spelled, enters.historyFiles_after plain,
      enters.stands_iff_later plain filled, fun new regular orderly => ?_⟩
    obtain ⟨marks, rfl, marked⟩ := exists_marked plain new snapshots
    obtain ⟨own, others⟩ := List.forall_mem_cons.1 regular
    exact enters.length_later_le plain marked own
      (fun mark mem => others _ (List.mem_map_of_mem mem))
      (fun mark mem => orderly _ (List.mem_map_of_mem mem)) (List.drop_sublist ..)

/-- A snapshot of an empty manifest. -/
def blankSnapshot : Snapshot := ⟨{}, ⟨2024, 1, 1, 12, 0, 0, 0, none⟩⟩

/-- Of two snapshots of one moment in a history of two entries both stand. -/
theorem stands_iff_of_saveEach_pair : ∃ path after text,
    ({ historyLimit := 2 } : Store).saveToHistory blankSnapshot.manifest blankSnapshot.moment
      (({ historyLimit := 2 } : Store).saveEach [blankSnapshot] newProject) = (.ok path, after) ∧
    printed (historyEntry blankSnapshot.manifest blankSnapshot.moment) = .ok text ∧
    after.Stands path text.toUTF8 := by
  have checked : succeeds
      (({ historyLimit := 2 } : Store).saveToHistory blankSnapshot.manifest blankSnapshot.moment
        (({ historyLimit := 2 } : Store).saveEach [blankSnapshot] newProject)).1 (fun _ => true) =
        true := by decide +kernel
  obtain ⟨path, ran, -⟩ := succeeds_eq_true.1 checked
  have returned := Prod.fst_eq_iff.1 ran
  have plain : ({ historyLimit := 2 } : Store).IsPlain := by decide +kernel
  obtain ⟨text, kept, spelled, -, stands, few⟩ :=
    (stands_iff_of_saveEach plain (by decide) [blankSnapshot] blankSnapshot newProject).2
      path _ returned
  have new : ({ historyLimit := 2 } : Store).HasNoHistory newProject := fun _ => rfl
  have regular : ∀ t ∈ [blankSnapshot, blankSnapshot], t.moment.IsRegular := by
    simpa using (by decide : blankSnapshot.moment.IsRegular)
  have orderly : ∀ t ∈ [blankSnapshot], ¬ blankSnapshot.moment.reading < t.moment.reading := by
    simp
  refine ⟨path, _, text, returned, spelled, stands.2 (.inr ((few new regular orderly).trans_lt ?_))⟩
  simp

/-- Of three snapshots of one moment, in a history of one entry, the last is not there after it was
saved. -/
theorem third_snapshot_lost : ¬ ∀ (store : Store) (p : Project) (snapshots : List Snapshot)
    (s : Snapshot) (path : String) (after : Project) (text : String), 1 ≤ store.historyLimit →
      (snapshots ++ [s]).Pairwise (fun t t' => t.moment = t'.moment ∨
        t.moment.reading < t'.moment.reading) →
      store.saveToHistory s.manifest s.moment (store.saveEach snapshots p) = (.ok path, after) →
      printed (historyEntry s.manifest s.moment) = .ok text → after.Stands path text.toUTF8 := by
  intro claimed
  have checked : succeeds
      (({ historyLimit := 1 } : Store).saveToHistory blankSnapshot.manifest blankSnapshot.moment
        (({ historyLimit := 1 } : Store).saveEach [blankSnapshot, blankSnapshot] newProject)).1
        (fun path =>
          ((({ historyLimit := 1 } : Store).saveEach [blankSnapshot, blankSnapshot,
            blankSnapshot] newProject).contentAt (namesOf path)).isNone) = true := by decide +kernel
  obtain ⟨path, ran, gone⟩ := succeeds_eq_true.1 checked
  have spelled : succeeds (printed (historyEntry blankSnapshot.manifest blankSnapshot.moment))
      (fun _ => true) = true := by
    decide +kernel
  obtain ⟨text, spelled, -⟩ := succeeds_eq_true.1 spelled
  have stands :=
    claimed _ _ [blankSnapshot, blankSnapshot] _ path _ text (by decide) (by simp)
      (Prod.fst_eq_iff.1 ran) spelled
  rw [← saveEach_concat] at stands
  rw [Option.isNone_iff_eq_none] at gone
  cases gone.symm.trans stands.contentAt

end Store
end Scaffold
