import OverloadSuite.Command.Job
import OverloadSuite.Document.Manifest

/-!
Batches. The jobs of a manifest are done in order until one fails; a job without a start id of its
own goes on from where the one before it ended. Paths are taken from the manifest's directory.
-/
namespace OverloadSuite

/-- The job of an entry in a directory, with the start id that it goes on from. -/
def BatchEntry.job (directory : String) (next : UInt64) (e : BatchEntry) : Job where
  types := Path.join directory e.types
  functions := Path.join directory e.functions
  selection := e.selection.map (Path.join directory)
  template := e.template.map (Path.join directory)
  out := Path.join directory e.out
  report := e.report.map (Path.join directory)
  options := {
    startId := e.startId.getD next
    check := e.check
    functions := e.functionFilter }

namespace Batch

variable {m : Type → Type} [Monad m] [Files m]

/-- Does the jobs of entries, the first of which has the given index and start id. -/
def performFrom (mode : OutputMode) (directory : String) (index : Nat) (next : UInt64) :
    List BatchEntry → ExceptT Failure m Unit
  | [] => return ()
  | e :: entries => do
    let next ← ExceptT.adapt (Failure.entry index) ((e.job directory next).perform mode)
    performFrom mode directory (index + 1) next entries

/-- The manifest of a file. -/
def readManifest (path : String) : ExceptT Failure m Manifest := do
  let manifest ← Job.readDocument .manifest Manifest.ofJson? path
  if Schema.manifest.accepts manifest.schemaVersion then return manifest
  else throw (.wrongManifest manifest.schemaVersion)

/-- The directory from which the paths of a manifest are taken. -/
def directoryOf (path : String) : String := (Path.parent? path).getD "."

/-- Does the jobs of a manifest. -/
def perform (path : String) (mode : OutputMode) : ExceptT Failure m Unit := do
  let manifest ← readManifest path
  performFrom mode (directoryOf path) 0 0 manifest.entries

end Batch

end OverloadSuite
