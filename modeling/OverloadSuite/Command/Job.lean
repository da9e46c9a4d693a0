import OverloadSuite.Command.Failure
import OverloadSuite.Document.Functions
import OverloadSuite.Document.Report
import OverloadSuite.Document.Selection
import OverloadSuite.Document.Types
import OverloadSuite.Json.Printer
import OverloadSuite.Json.Reader
import OverloadSuite.Run
import OverloadSuite.Template

/-!
Jobs. A job reads its documents, makes a run and writes the source and a report, or compares them
with the files that are there. All that can be found wrong with the documents and the template is
found before anything is written.
-/
namespace OverloadSuite

/-- The paths of a run's documents and outputs, and what is asked of the run. -/
structure Job where
  types : String
  functions : String
  selection : Option String
  template : Option String
  out : String
  report : Option String
  options : RunOptions
deriving DecidableEq, Repr

/-- What is done with an output: it is written, or compared with the file that is there. -/
inductive OutputMode where
  | write
  | compare
deriving DecidableEq, Repr

namespace Job

variable {m : Type → Type} [Monad m] [Files m]

/-- The result of an operation of the system, or a failure with the system's reason. -/
def orFail {α : Type} (cause : SystemError → Failure) (action : m (Except SystemError α)) :
    ExceptT Failure m α :=
  ExceptT.mk do return (← action).mapError cause

/-- A document decoded from a file. -/
def readDocument {α : Type} (schema : Schema) (ofJson? : Json → Option α) (path : String) :
    ExceptT Failure m α := do
  let bytes ← orFail (.unreadable schema path) (Files.read path)
  match Json.parseBytes? bytes >>= ofJson? with
  | some document => return document
  | none => throw (.undecodable schema path)

/-- What a decoded document means, unless it is rejected. -/
def accept {α : Type} (schema : Schema) (path : String) :
    Except Fault α → ExceptT Failure m α
  | .ok a => return a
  | .error fault => throw (.rejected schema path fault)

/-- The type catalog of a file. -/
def readTypes (path : String) : ExceptT Failure m Catalog := do
  accept .types path (← readDocument .types TypesDocument.ofJson? path).catalog

/-- The signatures of a file. -/
def readFunctions (path : String) : ExceptT Failure m (List Signature) := do
  accept .functions path (← readDocument .functions FunctionsDocument.ofJson? path).signatures

/-- The selection of a file. -/
def readSelection (path : String) : ExceptT Failure m Selection := do
  accept .selection path (← readDocument .selection SelectionDocument.ofJson? path).checked

/-- The selection of a job: without a file, every leaf of the catalog. -/
def selectionFor (job : Job) (c : Catalog) : ExceptT Failure m Selection :=
  match job.selection with
  | some path => readSelection path
  | none => return .allOf c

/-- The run of a job. -/
def run (job : Job) : ExceptT Failure m Run := do
  let c ← readTypes job.types
  let signatures ← readFunctions job.functions
  let s ← job.selectionFor c
  match Run.generate c signatures s job.options with
  | .ok run => return run
  | .error fault => throw (.ungenerated job.functions fault)

/-- The emitted source, or the template that it is put into. -/
def fillTemplate (job : Job) (source : String) : ExceptT Failure m String :=
  match job.template with
  | none => return source
  | some path => do
    let template ← orFail (.unreadableTemplate path) (Files.readText path)
    match Template.fill? template source with
    | some text => return text
    | none => throw (.markerMissing path)

/-- An output must be what the file at its path holds. -/
def compareOutput (path text : String) : ExceptT Failure m Unit := do
  let current ← orFail (.unreadableOutput path) (Files.readText path)
  if current = text then return () else throw (.outputDiffers path)

/-- An output is written to its path, after the directories around it are made. -/
def writeOutput (path text : String) : ExceptT Failure m Unit := do
  match Path.parent? path with
  | some directory => orFail (.unmadeDirectory directory) (Files.makeDirectories directory)
  | none => pure ()
  orFail (.unwrittenOutput path) (Files.write path text)

/-- What is done with an output. -/
def emit (mode : OutputMode) (path text : String) : ExceptT Failure m Unit :=
  match mode with
  | .compare => compareOutput path text
  | .write => writeOutput path text

/-- The text of a report file. -/
def reportText (report : Report) : String := report.toJson.indented ++ "\n"

/-- What is done with the report of a run, if one is asked for. -/
def emitReport (job : Job) (mode : OutputMode) (run : Run) : ExceptT Failure m Unit :=
  match job.report with
  | some path => emit mode path (reportText (run.report job.options.check))
  | none => return ()

/-- Does a job, and gives the first id that it does not use. -/
def perform (job : Job) (mode : OutputMode) : ExceptT Failure m UInt64 := do
  let run ← job.run
  run.diagnostics.forM fun d => ExceptT.lift (Files.warn d.text)
  let text ← job.fillTemplate run.source
  emit mode job.out text
  job.emitReport mode run
  return run.nextId

end Job

end OverloadSuite
