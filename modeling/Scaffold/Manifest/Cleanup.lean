import Scaffold.Manifest
import Scaffold.Project

/-!
# Cleaning up

Deleting the tracked files that a schema does not require any more. A record goes when its files
are gone; where a file could not be deleted the record stays, so that the next run tries again.
-/

namespace Scaffold
set_option autoImplicit false

/-- What a cleanup did. -/
structure Cleanup where
  deleted : List String := []
  missing : List String := []
  removedRecords : List String := []
  failures : List IOFailure := []
  deriving DecidableEq, Repr

namespace Cleanup

def isSuccess (c : Cleanup) : Bool := c.failures.isEmpty

/-- A cleanup under way. -/
structure Progress where
  report : Cleanup
  manifest : Manifest
  project : Project

/-- The files that a tracked path stands for, without those that are required. -/
def targets (p : Project) (required : List String) (path : String) :
    Except Interruption (List String) :=
  if Pattern.isPattern path then
    (p.glob path).map fun files => files.filter fun file => !Pattern.anyCovers required file
  else .ok [path]

/-- Deletes files, and tells whether all deletions succeeded. -/
def deleteFiles : List String → Progress → Except Interruption Bool × Progress
  | [], g => (.ok true, g)
  | path :: rest, g =>
    match g.project.delete path with
    | .ok (true, project) =>
      deleteFiles rest
        { g with project, report := { g.report with deleted := g.report.deleted ++ [path] } }
    | .ok (false, project) =>
      deleteFiles rest
        { g with project, report := { g.report with missing := g.report.missing ++ [path] } }
    | .error (.failure f) =>
      match deleteFiles rest
          { g with report := { g.report with failures := g.report.failures ++ [f] } } with
      | (.ok _, g) => (.ok false, g)
      | (.error e, g) => (.error e, g)
    | .error e => (.error e, g)

/-- Cleans up one tracked path. -/
def cleanPath (required : List String) (path : String) (g : Progress) :
    Except Interruption Unit × Progress :=
  match targets g.project required path with
  | .error (.failure f) =>
    (.ok (), { g with report := { g.report with failures := g.report.failures ++ [f] } })
  | .error e => (.error e, g)
  | .ok files =>
    match deleteFiles files g with
    | (.ok true, g) =>
      (.ok (), { g with
        manifest := (g.manifest.remove path).2
        report := { g.report with removedRecords := g.report.removedRecords ++ [path] } })
    | (.ok false, g) => (.ok (), g)
    | (.error e, g) => (.error e, g)

/-- Cleans up tracked paths one after another. -/
def cleanPaths (required : List String) :
    List String → Progress → Except Interruption Unit × Progress
  | [], g => (.ok (), g)
  | path :: rest, g =>
    match cleanPath required path g with
    | (.ok (), g) => cleanPaths required rest g
    | (.error e, g) => (.error e, g)

end Cleanup

/-- Deletes what a schema does not require. -/
def Manifest.cleanup (m : Manifest) (s : Schema) (p : Project) :
    Except Interruption Cleanup × Manifest × Project :=
  match Cleanup.cleanPaths s.requiredArtifacts (m.obsolete s) ⟨{}, m, p⟩ with
  | (.ok (), g) => (.ok g.report, g.manifest.recount, g.project)
  | (.error e, g) => (.error e, g.manifest, g.project)

/-- The record of a file as it is on the disk now. -/
def FileRecord.ofFile (p : Project) (path : String) (metadata : Json.Members) (now : Moment) :
    Except Interruption FileRecord := do
  if ← p.fileExists path then
    let content ← p.read path
    return ⟨now.isoUtc, some (Digest.ofBytes content), content.size, metadata⟩
  else return ⟨now.isoUtc, none, 0, metadata⟩

/-- Tracks a file as it is on the disk now. -/
def Manifest.trackFile (m : Manifest) (p : Project) (kind path : String) (metadata : Json.Members)
    (now : Moment) : Except Interruption (FileRecord × Manifest) :=
  (FileRecord.ofFile p path metadata now).map fun record => (record, m.track kind path record)

end Scaffold
