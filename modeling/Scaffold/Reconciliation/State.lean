/-!
# States of a reconciliation

What a reconciliation has done so far, and what can be asked of it.
-/

namespace Scaffold.Reconciliation
set_option autoImplicit false

/-- How far a reconciliation has come. -/
inductive State where
  | unloaded
  | loaded
  | diffed
  | reconciled
  | saved
  deriving DecidableEq, Repr

def State.name : State → String
  | unloaded => "unloaded"
  | loaded => "loaded"
  | diffed => "diffed"
  | reconciled => "reconciled"
  | saved => "saved"

/-- What is asked of a reconciliation. -/
inductive Request where
  | load
  | diff
  | reconcile
  | reconcileInPreview
  | record
  | forget
  | commit
  | manifest
  | schema
  | plan
  deriving DecidableEq, Repr

def Request.name : Request → String
  | load => "load"
  | diff => "diff"
  | reconcile => "reconcile"
  | reconcileInPreview => "reconcile in preview mode"
  | record => "record a file"
  | forget => "forget a file"
  | commit => "commit"
  | manifest => "access the manifest"
  | schema => "access the schema"
  | plan => "access the plan"

end Scaffold.Reconciliation
