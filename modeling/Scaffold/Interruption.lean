import Scaffold.Disk.Glob
import Scaffold.Json.Document
import Scaffold.Reconciliation.State

/-!
# What stops work on a project

A failure concerns one file: a run reports it and goes on. Any other interruption ends the work in
which it arises.
-/

namespace Scaffold
set_option autoImplicit false

/-- What is done with a file of a project. -/
inductive Operation where
  | resolve
  | read
  | decode
  | write
  | delete
  | glob
  | createDirectory
  deriving DecidableEq, Repr

namespace Operation

def name : Operation → String
  | resolve => "resolve"
  | read => "read"
  | decode => "decode"
  | write => "write"
  | delete => "delete"
  | glob => "glob"
  | createDirectory => "create directory"

end Operation

/-- Why an operation on a file failed. -/
inductive IOCause where
  | outsideRoot
  | disk (error : DiskError)
  | pattern (error : Glob.Invalid)
  | undecodable (error : Text.Utf8.DecodeError)
  | denied (reason : String)
  deriving DecidableEq, Repr

def IOCause.message : IOCause → String
  | outsideRoot => "path escapes project root"
  | disk error => error.message
  | pattern error => error.message
  | undecodable error => error.message
  | denied reason => reason

/-- An operation on a file that failed. -/
structure IOFailure where
  operation : Operation
  path : String
  cause : IOCause
  deriving DecidableEq, Repr

def IOFailure.message (f : IOFailure) : String :=
  "Failed to " ++ f.operation.name ++ " " ++ f.path ++ ": " ++ f.cause.message

/-- Why a file is no manifest: it holds no JSON object, or one with that many violations. -/
inductive Corruption where
  | document (error : Json.DocumentError)
  | violations (count : Nat)
  deriving DecidableEq, Repr

def Corruption.message : Corruption → String
  | document error => error.message "expected"
  | violations count =>
    toString count ++ (if count = 1 then " validation error" else " validation errors") ++
      " for Manifest"

/-- What ends a piece of work. -/
inductive Interruption where
  | failure (f : IOFailure)
  | disk (error : DiskError)
  | pattern (error : Glob.Invalid)
  | corrupt (path : String) (cause : Corruption)
  | numeral (error : Text.NumeralError)
  | outOfOrder (request : Reconciliation.Request) (state : Reconciliation.State)
  | calendarEnds
  deriving DecidableEq, Repr

def Interruption.message : Interruption → String
  | failure f => f.message
  | disk error => error.message
  | pattern error => error.message
  | corrupt path cause => "Corrupt manifest " ++ path ++ ": " ++ cause.message
  | numeral error => error.message
  | outOfOrder request state =>
    "Cannot " ++ request.name ++ " while reconciliation is " ++ state.name
  | calendarEnds => "date value out of range"

end Scaffold
