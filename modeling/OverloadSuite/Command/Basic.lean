import OverloadSuite.Command.Arguments

/-!
The command line program: it does what is asked for, prints what there is to be said on the standard
error output, and exits with 0, with 1 after a failure, and with 2 if the arguments are wrong. The
second copy of a failure, which the surroundings of the program print as it ends, is left out.
-/
namespace OverloadSuite.Command

variable {m : Type → Type} [Monad m] [Files m]

/-- How the program is used. -/
def usage : String :=
  "Usage:\n" ++
  "  mathgen generate --types <PATH> --functions <PATH> [--selection <PATH>] [--verified]\n" ++
  "    [--start-id <N>] [--function <NAME>]... [--template <PATH>] --out <PATH> [--check]\n" ++
  "    [--report-out <PATH>]\n" ++
  "  mathgen batch --manifest <PATH> [--check]\n" ++
  "  mathgen diagnostics"

/-- The exit code of an attempt, after the message of a failure. The message is printed once; its
second copy at the end of the program is not part of what is modelled. -/
def conclude {α : Type} (attempt : ExceptT Failure m α) : m UInt32 := do
  match ← attempt.run with
  | .ok _ => return 0
  | .error failure =>
    Files.warn failure.message
    return 1

/-- Does what arguments ask for and gives the exit code. -/
def run (args : List String) : m UInt32 := do
  match Arguments.parse? args with
  | some (.generate job mode) => conclude (job.perform mode)
  | some (.batch manifest mode) => conclude (Batch.perform manifest mode)
  | some .diagnostics =>
    Files.print Diagnostic.catalogPage
    return 0
  | some .help =>
    Files.print (usage ++ "\n")
    return 0
  | none =>
    Files.warn usage
    return 2

end OverloadSuite.Command
