import Scaffold.Proofs.Manifest.Pruning
import Scaffold.Proofs.Manifest.Succeeding
import Scaffold.Proofs.Reconciliation.Requests

/-!
# Calls of a reconciliation

A reconciliation is asked to load, plan, reconcile, record, forget and commit, in any order, and
each call finds the files as they are then. `Reconciliation.Transition` lists all that a call can
do. Whatever the calls, the manifest is saved at most once, after it was loaded, a plan made and the
obsolete files deleted: `Reconciliation.isOrderly_of_trace`.
-/

namespace Scaffold
set_option autoImplicit false

namespace Reconciliation

/-- What is asked of a reconciliation, and with what. -/
inductive Call where
  | load
  | diff (s : Schema)
  | reconcile
  | record (kind path : String) (metadata : Json.Members) (now : Moment)
  | forget (path : String)
  | commit (stamp : Bool) (now : Moment)

namespace Call

def request : Call → Request
  | load => .load
  | diff _ => .diff
  | reconcile => .reconcile
  | record .. => .record
  | forget _ => .forget
  | commit .. => .commit

/-- The state in which a call is due. -/
def state : Call → State
  | load => .unloaded
  | diff _ => .loaded
  | reconcile => .diffed
  | record .. | forget _ | commit .. => .reconciled

end Call

/-- Whether a call succeeds, and the reconciliation and the project after it. -/
def answer (r : Reconciliation) (p : Project) :
    Call → Except Interruption Unit × Reconciliation × Project
  | .load =>
    match r.load p with
    | .ok (_, after) => (.ok (), after, p)
    | .error e => (.error e, r, p)
  | .diff s =>
    match r.diff s with
    | .ok (_, after) => (.ok (), after, p)
    | .error e => (.error e, r, p)
  | .reconcile => ((r.reconcile p).1.map fun _ => (), (r.reconcile p).2)
  | .record kind path metadata now =>
    match r.record p kind path metadata now with
    | .ok (_, after) => (.ok (), after, p)
    | .error e => (.error e, r, p)
  | .forget path =>
    match r.forget path with
    | .ok (_, after) => (.ok (), after, p)
    | .error e => (.error e, r, p)
  | .commit stamp now => ((r.commit stamp now p).1.map fun _ => (), (r.commit stamp now p).2)

/-- A call comes in the wrong state, or it is to delete files in a preview. -/
def IsUntimely (r : Reconciliation) (call : Call) : Prop :=
  r.state ≠ call.state ∨ call = .reconcile ∧ r.mode = .preview

/-- What an untimely call is told that it cannot do. -/
def refused (r : Reconciliation) (call : Call) : Request :=
  if r.state = call.state then .reconcileInPreview else call.request

/-- What a call can do: one constructor for each way in which it can go. -/
inductive Transition (r : Reconciliation) (p : Project) :
    Call → Except Interruption Unit → Reconciliation → Project → Prop where
  | refused {call : Call} (untimely : r.IsUntimely call) :
      Transition r p call (.error (.outOfOrder (r.refused call) r.state)) r p
  | failed {call : Call} (cause : Interruption) (timely : ¬ r.IsUntimely call)
      (unstamped : ∀ stamp now, call = .commit stamp now → r.stamped stamp now = .error cause) :
      Transition r p call (.error cause) r p
  | loaded (m : Manifest) (state : r.state = .unloaded) (found : r.store.load p = .ok m) :
      Transition r p .load (.ok ()) { r with manifest? := some m, state := .loaded } p
  | planned (s : Schema) (plan : Plan) (state : r.state = .loaded) :
      Transition r p (.diff s) (.ok ())
        { r with schema? := some s, plan? := some plan, state := .diffed } p
  | reconciled (manifest? : Option Manifest) (left : Project) (state : r.state = .diffed)
      (acts : r.mode ≠ .preview) (shrinks : Project.Shrinks p left)
      (kept : r.mode ≠ .clean → left = p) :
      Transition r p .reconcile (.ok ()) { r with manifest?, state := .reconciled } left
  | interrupted (cause : Interruption) (manifest? : Option Manifest) (left : Project)
      (state : r.state = .diffed) (cleans : r.mode = .clean) (shrinks : Project.Shrinks p left) :
      Transition r p .reconcile (.error cause) { r with manifest? } left
  | recorded (kind path : String) (metadata : Json.Members) (now : Moment) (m : Manifest)
      (state : r.state = .reconciled) : Transition r p (.record kind path metadata now) (.ok ())
      { r with manifest? := some m } p
  | forgot (path : String) (m : Manifest) (state : r.state = .reconciled) :
      Transition r p (.forget path) (.ok ()) { r with manifest? := some m } p
  | unsaved (stamp : Bool) (now : Moment) (m : Manifest) (cause : Interruption) (left : Project)
      (state : r.state = .reconciled) (stamped : r.stamped stamp now = .ok m)
      (refused : r.store.save m.recount p = (.error cause, left)) :
      Transition r p (.commit stamp now) (.error cause) { r with manifest? := some m.recount } left
  | saved (stamp : Bool) (now : Moment) (m : Manifest) (between : Project)
      (state : r.state = .reconciled) (stamped : r.stamped stamp now = .ok m)
      (done : r.store.save m.recount p = (.ok (), between)) :
      Transition r p (.commit stamp now)
        (if stamp then (r.store.saveToHistory m.recount now between).1.map fun _ => () else .ok ())
        { r with manifest? := some m.recount, state := .saved }
        (if stamp then (r.store.saveToHistory m.recount now between).2 else between)

variable {r : Reconciliation} {p : Project} {call : Call}

/-- An untimely call is refused and changes nothing. -/
theorem answer_of_untimely (untimely : r.IsUntimely call) :
    r.answer p call = (.error (.outOfOrder (r.refused call) r.state), r, p) := by
  rcases untimely with early | ⟨rfl, preview⟩
  · have expected :
      r.expect call.request call.state = .error (.outOfOrder call.request r.state) := if_neg early
    rw [refused, if_neg early]
    cases call <;> dsimp only [Call.request, Call.state] at expected
    case reconcile => simp only [answer, reconcile, expected]; rfl
    case commit => simp only [answer, commit, expected, bind, Except.bind]; rfl
    case load => simp only [answer, load, expected, bind, Except.bind]; rfl
    case diff => simp only [answer, diff, expected, bind, Except.bind]; rfl
    case record => simp only [answer, record, expected, bind, Except.bind]; rfl
    case forget => simp only [answer, forget, expected, bind, Except.bind]; rfl
  · by_cases state : r.state = .diffed
    · have due : r.state = Call.reconcile.state := state
      simp only [refused, if_pos due, answer, reconcile, expect, if_pos state, preview]
      rfl
    · have early : ¬ r.state = Call.reconcile.state := state
      simp only [refused, if_neg early, answer, reconcile, expect, if_neg state]
      rfl

theorem transition_reconcile (state : r.state = .diffed) (acts : r.mode ≠ .preview) :
    Transition r p .reconcile (r.answer p .reconcile).1 (r.answer p .reconcile).2.1
      (r.answer p .reconcile).2.2 := by
  have idle : Transition r p .reconcile (.ok ()) { r with state := .reconciled } p :=
    .reconciled r.manifest? p state acts (.refl p) fun _ => rfl
  dsimp only [answer]
  unfold reconcile expect
  rw [if_pos state]
  split
  · rename_i h
    cases h
  · rename_i preview
    exact absurd preview acts
  · rename_i m s plan _ cleans known _ _
    split
    · exact idle
    · have shrinks := (m.shrinks_cleanup s p).1
      split <;> rename_i eq <;> rw [eq] at shrinks
      · exact .reconciled _ _ state acts shrinks fun other => absurd cleans other
      · exact .interrupted _ _ _ state cleans shrinks
  · exact idle

theorem transition_commit (stamp : Bool) (now : Moment) (state : r.state = .reconciled) :
    Transition r p (.commit stamp now) (r.answer p (.commit stamp now)).1
      (r.answer p (.commit stamp now)).2.1 (r.answer p (.commit stamp now)).2.2 := by
  have timely : ¬ r.IsUntimely (.commit stamp now) := by
    rintro (early | ⟨other, -⟩)
    · exact early state
    · cases other
  dsimp only [answer]
  unfold commit expect
  rw [if_pos state]
  cases stamping : r.stamped stamp now with
  | error cause =>
    refine .failed cause timely fun stamp' now' same => ?_
    obtain ⟨rfl, rfl⟩ := Call.commit.inj same
    exact stamping
  | ok m =>
    dsimp only [bind, Except.bind]
    cases saving : r.store.save m.recount p with
    | mk outcome between =>
      cases outcome with
      | error cause => exact .unsaved stamp now m cause between state stamping saving
      | ok _ =>
        have saves := Transition.saved stamp now m between state stamping saving
        cases stamp with
        | false => exact saves
        | true =>
          dsimp only
          cases entering : r.store.saveToHistory m.recount now between with
          | mk outcome left =>
            rw [entering] at saves
            cases outcome <;> exact saves

/-- All that a call can do. -/
theorem transition_answer (r : Reconciliation) (p : Project) (call : Call) :
    Transition r p call (r.answer p call).1 (r.answer p call).2.1 (r.answer p call).2.2 := by
  by_cases untimely : r.IsUntimely call
  · rw [answer_of_untimely untimely]
    exact .refused untimely
  · obtain ⟨state, acts⟩ : r.state = call.state ∧ ¬ (call = .reconcile ∧ r.mode = .preview) := by
      simpa [IsUntimely, not_or] using untimely
    cases call with
    | load =>
      dsimp only [answer]
      split
      · rename_i m after loading
        obtain ⟨found, rfl⟩ := load_eq_ok loading
        exact .loaded m state found
      · rename_i cause _
        exact .failed cause untimely nofun
    | diff s =>
      dsimp only [answer]
      split
      · rename_i plan after planning
        obtain ⟨m, known⟩ := known_of_diff planning
        obtain ⟨-, rfl, -⟩ := diff_eq_ok known planning
        exact .planned s plan state
      · rename_i cause _
        exact .failed cause untimely nofun
    | reconcile => exact transition_reconcile state fun preview => acts ⟨rfl, preview⟩
    | record kind path metadata now =>
      dsimp only [answer]
      split
      · rename_i after recording
        obtain ⟨-, tracked, -, -, rfl⟩ := record_eq_ok recording
        exact .recorded kind path metadata now tracked state
      · rename_i cause _
        exact .failed cause untimely nofun
    | forget path =>
      dsimp only [answer]
      split
      · rename_i after forgetting
        obtain ⟨m, -, rfl⟩ := forget_eq_ok forgetting
        exact .forgot path _ state
      · rename_i cause _
        exact .failed cause untimely nofun
    | commit stamp now => exact transition_commit stamp now state

/-- A call as it happened: what it met, what came of it and what it left. -/
structure Event where
  call : Call
  before : Reconciliation
  found : Project
  outcome : Except Interruption Unit
  after : Reconciliation
  left : Project

/-- What happens at a call. -/
def event (r : Reconciliation) (call : Call) (p : Project) : Event :=
  ⟨call, r, p, (r.answer p call).1, (r.answer p call).2.1, (r.answer p call).2.2⟩

/-- What happens at calls one after another, each with the files as it finds them. -/
def trace (r : Reconciliation) : List (Call × Project) → List Event
  | [] => []
  | (call, p) :: rest => r.event call p :: trace (r.event call p).after rest

/-- Calls of some kinds have succeeded, one after another. -/
def Succeeded (past : List Event) (requests : List Request) : Prop :=
  ∃ steps : List Event, steps.Sublist past ∧ steps.map (·.call.request) = requests ∧ ∀ f ∈ steps,
    f.outcome = .ok ()

namespace Event

def IsPossible (e : Event) : Prop := Transition e.before e.found e.call e.outcome e.after e.left

/-- The call saves the manifest. -/
def Saves (e : Event) : Prop :=
  ∃ stamp now m between, e.call = .commit stamp now ∧ e.before.state = .reconciled ∧
    e.before.stamped stamp now = .ok m ∧ e.before.store.save m.recount e.found = (.ok (), between)

/-- The file at a place is pruned from the history once the call has saved a stamped manifest
there. -/
def Prunes (e : Event) (place : Place) : Prop :=
  ∃ now m between written, e.call = .commit true now ∧ e.before.stamped true now = .ok m ∧
    e.before.store.save m.recount e.found = (.ok (), between) ∧
    e.before.store.Entered m.recount now between written ∧
    e.before.store.IsOver written place

/-- What holds of each call, after those in the past. -/
structure IsOrderly (start : Reconciliation) (past : List Event) (e : Event) : Prop where
  kept : e.before.store = start.store ∧ e.before.mode = start.mode
  /-- An untimely call is refused and changes nothing. -/
  refused : e.before.IsUntimely e.call →
    e.outcome = .error (.outOfOrder (e.before.refused e.call) e.before.state) ∧ e.after = e.before ∧
    e.left = e.found
  /-- The manifest is saved once, after it was loaded, a plan made and reconciled. -/
  once : e.Saves → (∀ f ∈ past, ¬ f.Saves) ∧ Succeeded past [.load, .diff, .reconcile]
  /-- Any other call writes no file. -/
  unwritten : ¬ e.Saves → Project.Shrinks e.found e.left
  preview : start.mode = .preview → e.left = e.found
  /-- Only a clean run deletes files that are not in the history. -/
  losses : start.mode ≠ .clean → Project.Loses e.Prunes e.found e.left
  unloaded : e.call = .load → e.outcome ≠ .ok () → e.after = e.before ∧ e.left = e.found
  /-- A commit that does not save the manifest fails, and another can be tried. -/
  unsaved : ∀ stamp now, e.call = .commit stamp now → ¬ e.Saves →
    e.outcome ≠ .ok () ∧ e.after = { e.before with manifest? := e.after.manifest? } ∧
      Project.Touches (fun _ => False) e.found e.left

variable {e : Event}

theorem state_of_saves (possible : e.IsPossible) (saves : e.Saves) : e.after.state = .saved := by
  obtain ⟨call, before, found, outcome, after, left⟩ := e
  obtain ⟨stamp, now, m, between, isCommit, state, stamping, saving⟩ := saves
  dsimp only [IsPossible] at isCommit state stamping saving possible
  subst isCommit
  cases possible with
  | refused untimely =>
    rcases untimely with early | ⟨other, -⟩
    · exact absurd state early
    · cases other
  | failed cause timely unstamped => cases (unstamped stamp now rfl).symm.trans stamping
  | unsaved _ _ m' cause left _ stamped refused =>
    obtain rfl := Except.ok.inj (stamped.symm.trans stamping)
    cases (Prod.mk.inj (refused.symm.trans saving)).1
  | saved => rfl

theorem shrinks_of_not_saves (possible : e.IsPossible) (unsaved : ¬ e.Saves) :
    Project.Shrinks e.found e.left := by
  obtain ⟨call, before, found, outcome, after, left⟩ := e
  dsimp only [IsPossible] at possible ⊢
  cases possible with
  | reconciled manifest? left state acts shrinks kept => exact shrinks
  | interrupted cause manifest? left state cleans shrinks => exact shrinks
  | unsaved stamp now m cause left state stamped refused =>
    exact (Store.touches_save_of_error refused).shrinks
  | saved stamp now m between state stamped done =>
    exact absurd ⟨stamp, now, m, between, rfl, state, stamped, done⟩ unsaved
  | _ => exact .refl found

theorem left_of_preview (possible : e.IsPossible) (previews : e.before.mode = .preview)
    (early : e.before.state ≠ .reconciled) : e.left = e.found := by
  obtain ⟨call, before, found, outcome, after, left⟩ := e
  dsimp only [IsPossible] at possible previews early ⊢
  cases possible with
  | reconciled manifest? left state acts shrinks kept => exact absurd previews acts
  | interrupted cause manifest? left state cleans shrinks => cases cleans.symm.trans previews
  | unsaved stamp now m cause left state stamped refused => exact absurd state early
  | saved stamp now m between state stamped done => exact absurd state early
  | _ => rfl

theorem loses_prunes (possible : e.IsPossible) (keeps : e.before.mode ≠ .clean) :
    Project.Loses e.Prunes e.found e.left := by
  obtain ⟨call, before, found, outcome, after, left⟩ := e
  dsimp only [IsPossible] at possible keeps ⊢
  cases possible with
  | reconciled manifest? left state acts shrinks kept => exact kept keeps ▸ .refl _ _
  | interrupted cause manifest? left state cleans shrinks => exact absurd cleans keeps
  | unsaved stamp now m cause left state stamped refused =>
    have saved := before.store.loses_save (fun _ => False) m.recount found
    rw [refused] at saved
    exact saved.mono fun _ => False.elim
  | saved stamp now m between state stamped done =>
    have saved := before.store.loses_save (fun _ => False) m.recount found
    rw [done] at saved
    cases stamp with
    | false => exact saved.mono fun _ => False.elim
    | true =>
      refine (saved.mono fun _ => False.elim).trans
        ((before.store.loses_saveToHistory m.recount now between).mono ?_)
      rintro place ⟨written, entered, surplus⟩
      exact ⟨now, m, between, written, rfl, stamped, done, entered, surplus⟩
  | _ => exact .refl _ found

theorem load_of_error (possible : e.IsPossible) (isLoad : e.call = .load)
    (fails : e.outcome ≠ .ok ()) : e.after = e.before ∧ e.left = e.found := by
  obtain ⟨call, before, found, outcome, after, left⟩ := e
  dsimp only [IsPossible] at possible isLoad fails ⊢
  subst isLoad
  cases possible with
  | loaded m state loads => exact absurd rfl fails
  | _ => exact ⟨rfl, rfl⟩

theorem commit_of_not_saves {stamp : Bool} {now : Moment} (possible : e.IsPossible)
    (isCommit : e.call = .commit stamp now) (unsaved : ¬ e.Saves) :
    e.outcome ≠ .ok () ∧ e.after = { e.before with manifest? := e.after.manifest? } ∧
      Project.Touches (fun _ => False) e.found e.left := by
  obtain ⟨call, before, found, outcome, after, left⟩ := e
  dsimp only [IsPossible] at possible isCommit ⊢
  subst isCommit
  cases possible with
  | unsaved _ _ m cause left state stamped refused =>
    exact ⟨nofun, rfl, Store.touches_save_of_error refused⟩
  | saved _ _ m between state stamped done =>
    exact absurd ⟨stamp, now, m, between, rfl, state, stamped, done⟩ unsaved
  | _ => exact ⟨nofun, rfl, .refl _ _⟩

end Event

/-- The requests that have been granted when a reconciliation comes to a state. -/
def State.granted : State → List Request
  | unloaded => []
  | loaded => [.load]
  | diffed => [.load, .diff]
  | reconciled | saved => [.load, .diff, .reconcile]

/-- What a reconciliation tells of the calls in the past. -/
structure Sound (start : Reconciliation) (past : List Event) (r : Reconciliation) : Prop where
  store : r.store = start.store
  mode : r.mode = start.mode
  granted : Succeeded past r.state.granted
  unsaved : r.state ≠ .saved → ∀ f ∈ past, ¬ f.Saves
  preview : start.mode = .preview → r.state ≠ .reconciled ∧ r.state ≠ .saved

variable {start : Reconciliation} {past : List Event} {e : Event}

theorem Succeeded.later {requests : List Request} (h : Succeeded past requests)
    (more : List Event) : Succeeded (past ++ more) requests := by
  obtain ⟨steps, within, kinds, done⟩ := h
  exact ⟨steps, within.trans (List.sublist_append_left ..), kinds, done⟩

theorem Succeeded.next {requests : List Request} (h : Succeeded past requests)
    (done : e.outcome = .ok ()) : Succeeded (past ++ [e]) (requests ++ [e.call.request]) := by
  obtain ⟨steps, within, kinds, all⟩ := h
  refine ⟨steps ++ [e], within.append (.refl _),
    by rw [List.map_append, kinds]; rfl, fun f mem => ?_⟩
  rcases List.mem_append.1 mem with mem | mem
  · exact all f mem
  · rwa [List.mem_singleton.1 mem]

theorem Sound.unsaved_step (sound : Sound start past e.before) (possible : e.IsPossible)
    (early : e.before.state ≠ .saved) (late : e.after.state ≠ .saved) :
    ∀ f ∈ past ++ [e], ¬ f.Saves := by
  intro f mem saves
  rcases List.mem_append.1 mem with mem | mem
  · exact sound.unsaved early f mem saves
  · rw [List.mem_singleton.1 mem] at saves
    exact late (Event.state_of_saves possible saves)

theorem Sound.stays (sound : Sound start past e.before) (possible : e.IsPossible)
    (store : e.after.store = e.before.store) (mode : e.after.mode = e.before.mode)
    (state : e.after.state = e.before.state) : Sound start (past ++ [e]) e.after where
  store := store.trans sound.store
  mode := mode.trans sound.mode
  granted := state ▸ sound.granted.later [e]
  unsaved late := sound.unsaved_step possible (state ▸ late) late
  preview previews := state ▸ sound.preview previews

/-- A call keeps what a reconciliation tells. -/
theorem Sound.step (sound : Sound start past e.before) (possible : e.IsPossible) :
    Sound start (past ++ [e]) e.after := by
  have stays := sound.stays possible
  have unsaved := sound.unsaved_step possible
  have granted := sound.granted
  have next := fun requests (h : Succeeded past requests) => h.next (e := e)
  obtain ⟨call, r, p, outcome, after, left⟩ := e
  dsimp only [Event.IsPossible] at possible stays unsaved granted next
  cases possible with
  | refused untimely => exact stays rfl rfl rfl
  | failed cause timely unstamped => exact stays rfl rfl rfl
  | interrupted cause manifest? left state cleans shrinks => exact stays rfl rfl rfl
  | recorded kind path metadata now m state => exact stays rfl rfl rfl
  | forgot path m state => exact stays rfl rfl rfl
  | unsaved stamp now m cause left state stamped refused => exact stays rfl rfl rfl
  | loaded m state found =>
    rw [state] at granted unsaved
    exact ⟨sound.store, sound.mode, next _ granted rfl, unsaved nofun, fun _ => ⟨nofun, nofun⟩⟩
  | planned s plan state =>
    rw [state] at granted unsaved
    exact ⟨sound.store, sound.mode, next _ granted rfl, unsaved nofun, fun _ => ⟨nofun, nofun⟩⟩
  | reconciled manifest? left state acts shrinks kept =>
    rw [state] at granted unsaved
    exact ⟨sound.store, sound.mode, next _ granted rfl, unsaved nofun,
      fun previews => absurd (sound.mode.trans previews) acts⟩
  | saved stamp now m between state stamped done =>
    rw [state] at granted
    exact ⟨sound.store, sound.mode, granted.later _, fun late => absurd rfl late,
      fun previews => absurd state (sound.preview previews).1⟩

/-- Each call is orderly after those in the past. -/
theorem Sound.isOrderly {r : Reconciliation} (sound : Sound start past r) (call : Call)
    (p : Project) : (r.event call p).IsOrderly start past where
  kept := ⟨sound.store, sound.mode⟩
  refused untimely := by
    have answered : r.answer p call = _ := answer_of_untimely untimely
    exact ⟨congrArg (·.1) answered, congrArg (·.2.1) answered, congrArg (·.2.2) answered⟩
  once saves := by
    obtain ⟨stamp, now, m, between, -, state, -⟩ := saves
    have granted := sound.granted
    rw [show r.state = .reconciled from state] at granted
    exact ⟨sound.unsaved (by rw [show r.state = .reconciled from state]; decide), granted⟩
  unwritten := Event.shrinks_of_not_saves (transition_answer r p call)
  preview previews :=
    Event.left_of_preview (transition_answer r p call) (sound.mode.trans previews)
      (sound.preview previews).1
  losses keeps := Event.loses_prunes (transition_answer r p call) (sound.mode ▸ keeps)
  unloaded isLoad fails := Event.load_of_error (transition_answer r p call) isLoad fails
  unsaved _ _ isCommit unsaved :=
    Event.commit_of_not_saves (transition_answer r p call) isCommit unsaved

theorem Sound.trace {r : Reconciliation} (sound : Sound start past r)
    {calls : List (Call × Project)} {more rest : List Event}
    (h : r.trace calls = more ++ e :: rest) : e.IsOrderly start (past ++ more) := by
  induction calls generalizing r past more with
  | nil => simp [Reconciliation.trace] at h
  | cons first others ih =>
    obtain ⟨call, p⟩ := first
    rw [Reconciliation.trace] at h
    cases more with
    | nil =>
      obtain ⟨rfl, -⟩ := List.cons.inj h
      rw [List.append_nil]
      exact sound.isOrderly call p
    | cons happened more =>
      obtain ⟨rfl, others⟩ := List.cons.inj h
      have step : Sound start (past ++ [r.event call p]) (r.event call p).after :=
        sound.step (transition_answer r p call)
      rw [List.append_cons]
      exact ih step others

/-- Whatever is asked of a reconciliation, in whatever order, and whatever files each call finds: an
untimely call is refused and changes nothing; the manifest is saved at most once, after it was
loaded, a plan made and reconciled, and no other call writes it; a preview changes nothing; only a
clean run deletes files that are not pruned from the history; and a manifest that cannot be loaded
or saved leaves the reconciliation where it was. -/
theorem isOrderly_of_trace (store : Store) (mode : Mode) (calls : List (Call × Project))
    (past rest : List Event) (e : Event)
    (h : ({ store, mode } : Reconciliation).trace calls = past ++ e :: rest) :
    e.IsOrderly { store, mode } past := by
  have start : Sound { store, mode } [] { store, mode } :=
    ⟨rfl, rfl, ⟨[], .refl _, rfl, by simp⟩, fun _ f mem => absurd mem List.not_mem_nil,
      fun _ => ⟨nofun, nofun⟩⟩
  have orderly : e.IsOrderly { store, mode } ([] ++ past) := start.trace h
  rwa [List.nil_append] at orderly

/-- A merge in a project that holds one file, up to its commit. -/
def strayCalls : List (Call × Project) :=
  [Call.load, .diff Manifest.noSchema, .reconcile, .commit true ⟨2024, 1, 1, 12, 0, 0, 0, none⟩].map
    fun call => (call, Manifest.strayProject)

/-- The merge when it comes to its commit. -/
def strayMerge : Reconciliation :=
  let loaded := (({ mode := .merge } : Reconciliation).event .load Manifest.strayProject).after
  ((loaded.event (.diff Manifest.noSchema) Manifest.strayProject).after.event .reconcile
    Manifest.strayProject).after

theorem saves_strayMerge :
    (strayMerge.event (.commit true ⟨2024, 1, 1, 12, 0, 0, 0, none⟩)
      Manifest.strayProject).Saves := by
  have state : strayMerge.state = .reconciled := by decide +kernel
  have checked : succeeds (strayMerge.stamped true ⟨2024, 1, 1, 12, 0, 0, 0, none⟩) (fun m =>
      succeeds (strayMerge.store.save m.recount Manifest.strayProject).1 fun _ => true) =
        true := by decide +kernel
  obtain ⟨m, stamped, saving⟩ := succeeds_eq_true.1 checked
  obtain ⟨_, saved, -⟩ := succeeds_eq_true.1 saving
  exact ⟨true, _, m, _, rfl, state, stamped, Prod.fst_eq_iff.1 saved⟩

/-- The commit saves the manifest, after the three calls before it. -/
theorem isOrderly_of_trace_stray :
    ∃ past e, ({ mode := .merge } : Reconciliation).trace strayCalls = past ++ [e] ∧
    e.Saves ∧ e.IsOrderly { mode := .merge } past ∧ Succeeded past [.load, .diff, .reconcile] := by
  have orderly := isOrderly_of_trace {} .merge strayCalls
    ((({ mode := .merge } : Reconciliation).trace strayCalls).take 3) [] _ rfl
  exact ⟨_, _, rfl, saves_strayMerge, orderly, (orderly.once saves_strayMerge).2⟩

end Reconciliation
end Scaffold
