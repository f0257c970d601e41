import Scaffold.Generation.Options
import Scaffold.Manifest.Cleanup
import Scaffold.Manifest.Store

/-!
# Reconciliation

How a run brings the manifest in step with a schema: it loads the manifest, plans what is to go and
to stay, deletes what is obsolete, records the files that are generated and saves the manifest
once. What is asked out of order is refused and changes nothing.
-/

namespace Scaffold
set_option autoImplicit false

/-- What a run would keep, generate and delete. -/
structure Plan where
  mode : Mode
  schemaChanged : Bool
  previousHash : Option String
  newHash : String
  required : List String
  cleanup : List String
  deriving DecidableEq, Repr

/-- The plan for a schema, from what is tracked. -/
def Plan.of (mode : Mode) (m : Manifest) (s : Schema) : Plan :=
  ⟨mode, m.differsFrom s, m.schemaHash, s.hash, s.requiredArtifacts, m.obsolete s⟩

/-- A reconciliation under way, with what it has learned so far. -/
structure Reconciliation where
  store : Store := {}
  mode : Mode := .clean
  state : Reconciliation.State := .unloaded
  manifest? : Option Manifest := none
  schema? : Option Schema := none
  plan? : Option Plan := none

namespace Reconciliation

/-- How a reconciliation shows in a report. -/
def shown (r : Reconciliation) : String :=
  "<ReconciliationEngine " ++ r.mode.name ++ " " ++ r.state.name ++ ">"

def refuse {α : Type} (r : Reconciliation) (request : Request) : Except Interruption α :=
  .error (.outOfOrder request r.state)

/-- Refuses a request in any state but one. -/
def expect (r : Reconciliation) (request : Request) (state : State) : Except Interruption Unit :=
  if r.state = state then .ok () else r.refuse request

/-- What is known, or a refusal. -/
def known {α : Type} (r : Reconciliation) (request : Request) : Option α → Except Interruption α
  | some a => .ok a
  | none => r.refuse request

def manifest (r : Reconciliation) : Except Interruption Manifest := r.known .manifest r.manifest?

def schema (r : Reconciliation) : Except Interruption Schema := r.known .schema r.schema?

def plan (r : Reconciliation) : Except Interruption Plan := r.known .plan r.plan?

/-- Loads the manifest. -/
def load (r : Reconciliation) (p : Project) : Except Interruption (Manifest × Reconciliation) := do
  r.expect .load .unloaded
  let m ← r.store.load p
  return (m, { r with manifest? := some m, state := .loaded })

/-- Plans for a schema; nothing is changed on the disk. A document that cannot be printed has no
digest. -/
def diff (r : Reconciliation) (s : Schema) : Except Interruption (Plan × Reconciliation) := do
  r.expect .diff .loaded
  if !(Json.object s.document).isPrintable then throw (.numeral .unwritable)
  let plan := Plan.of r.mode (← r.manifest) s
  return (plan, { r with schema? := some s, plan? := some plan, state := .diffed })

/-- Deletes what is obsolete; where files are kept, does nothing. -/
def reconcile (r : Reconciliation) (p : Project) :
    Except Interruption Cleanup × Reconciliation × Project :=
  match r.expect .reconcile .diffed, r.mode, r.manifest?, r.schema?, r.plan? with
  | .error e, _, _, _, _ => (.error e, r, p)
  | .ok (), .preview, _, _, _ => (r.refuse .reconcileInPreview, r, p)
  | .ok (), .clean, some m, some s, some plan =>
    if plan.cleanup.isEmpty then (.ok {}, { r with state := .reconciled }, p)
    else
      match m.cleanup s p with
      | (.ok report, m, p) => (.ok report, { r with manifest? := some m, state := .reconciled }, p)
      | (.error e, m, p) => (.error e, { r with manifest? := some m }, p)
  | .ok (), _, _, _, _ => (.ok {}, { r with state := .reconciled }, p)

/-- Records a file that was generated. -/
def record (r : Reconciliation) (p : Project) (kind path : String) (metadata : Json.Members)
    (now : Moment) : Except Interruption (FileRecord × Reconciliation) := do
  r.expect .record .reconciled
  let (record, m) ← (← r.manifest).trackFile p kind path metadata now
  return (record, { r with manifest? := some m })

/-- Drops the records of a path and tells how many there were. -/
def forget (r : Reconciliation) (path : String) : Except Interruption (Nat × Reconciliation) := do
  r.expect .forget .reconciled
  let (count, m) := (← r.manifest).remove path
  return (count, { r with manifest? := some m })

/-- The manifest that is saved: stamped with the schema, or as it is. -/
def stamped (r : Reconciliation) (stamp : Bool) (now : Moment) : Except Interruption Manifest := do
  let m ← r.manifest
  if stamp then return m.stamp (← r.schema) now else return m

/-- Saves the manifest. With `stamp` it counts as generated from the schema and enters the history;
without, the next run sees a change. -/
def commit (r : Reconciliation) (stamp : Bool) (now : Moment) (p : Project) :
    Except Interruption (Option String) × Reconciliation × Project :=
  match (do r.expect .commit .reconciled; r.stamped stamp now : Except Interruption Manifest) with
  | .error e => (.error e, r, p)
  | .ok m =>
    let m := m.recount
    let r := { r with manifest? := some m }
    match r.store.save m p with
    | (.error e, p) => (.error e, r, p)
    | (.ok (), p) =>
      let r := { r with state := .saved }
      if stamp then
        match r.store.saveToHistory m now p with
        | (.ok path, p) => (.ok (some path), r, p)
        | (.error e, p) => (.error e, r, p)
      else (.ok none, r, p)

end Reconciliation
end Scaffold
