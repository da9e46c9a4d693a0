import OverloadSuite.Workspace.Path

/-!
Working with files. A program reads and writes whole files, makes directories and prints, each of
which may fail for a reason of the system's.
-/
namespace OverloadSuite

/-- The reasons for which the system refuses an operation on a path. -/
inductive SystemError where
  | notFound
  | permissionDenied
  | exists
  | notDirectory
  | isDirectory
  | nameTooLong
  | nulByte
  | notUtf8
  | other (message : String) (code : Nat)
deriving DecidableEq, Repr

namespace SystemError

/-- The wording of an error with a code of the system. -/
def numbered (message : String) (code : Nat) : String :=
  message ++ " (os error " ++ toString code ++ ")"

/-- The wording of an error. -/
def message : SystemError → String
  | notFound => numbered "No such file or directory" 2
  | permissionDenied => numbered "Permission denied" 13
  | SystemError.exists => numbered "File exists" 17
  | notDirectory => numbered "Not a directory" 20
  | isDirectory => numbered "Is a directory" 21
  | nameTooLong => numbered "File name too long" 36
  | nulByte => "file name contained an unexpected NUL byte"
  | notUtf8 => "stream did not contain valid UTF-8"
  | other message code => numbered message code

end SystemError

/-- The operations that a program needs of the system. -/
class Files (m : Type → Type) where
  /-- The contents of a file. -/
  read : String → m (Except SystemError ByteArray)
  /-- Makes a text the contents of a file, which need not be there before. -/
  write : String → String → m (Except SystemError Unit)
  /-- Makes a directory within one that is there. -/
  makeDirectory : String → m (Except SystemError Unit)
  /-- A path that leads to a directory. -/
  isDirectory : String → m Bool
  /-- Prints a text to the standard output. -/
  print : String → m Unit
  /-- Prints a line to the standard error output. -/
  warn : String → m Unit

namespace Files

variable {m : Type → Type} [Monad m] [Files m]

/-- The contents of a text file. -/
def readText (path : String) : m (Except SystemError String) := do
  match ← read path with
  | .ok bytes => return (String.fromUTF8? bytes).elim (.error .notUtf8) .ok
  | .error e => return .error e

/-- An attempt at a directory counts as a success if a directory is there afterwards. -/
def settle (path : String) : Except SystemError Unit → m (Except SystemError Unit)
  | .ok () => return .ok ()
  | .error e => do
    if ← isDirectory path then return .ok () else return .error e

/-- Makes a directory and, when they are missing, the directories around it, up to `steps` in all.
The working directory, which an empty path stands for, needs no making. -/
def makeNested (path : String) : (steps : Nat) → m (Except SystemError Unit)
  | 0 => return .ok ()
  | steps + 1 => do
    if path.isEmpty then return .ok ()
    match ← makeDirectory path with
    | .error .notFound =>
      let outer ← match Path.parent? path with
        | some outer => makeNested outer steps
        | none => pure (.ok ())
      match outer with
      | .ok () => settle path (← makeDirectory path)
      | .error e => return .error e
    | result => settle path result

/-- Makes a directory and the directories around it that are missing. Each of them has a shorter
path than the one within it. -/
def makeDirectories (path : String) : m (Except SystemError Unit) :=
  makeNested path (path.length + 1)

end Files

end OverloadSuite
