import OverloadSuite.Command.Basic

/-!
The program itself: the operations of the system, and the command line.
-/
namespace OverloadSuite

/-- The reason with a number. Reading reports numbers negated, as words of 32 bits. -/
def SystemError.ofNumber (code : UInt32) (details : String) : SystemError :=
  match (if code < 0x80000000 then code else 0 - code).toNat with
  | 2 => .notFound
  | 13 => .permissionDenied
  | 17 => .exists
  | 20 => .notDirectory
  | 21 => .isDirectory
  | 36 => .nameTooLong
  | number => .other details number

/-- The reason behind an error of the system. -/
def SystemError.ofError : IO.Error → SystemError
  | .noFileOrDirectory _ code details | .alreadyExists _ code details
  | .inappropriateType _ code details | .permissionDenied _ code details
  | .invalidArgument _ code details | .resourceExhausted _ code details =>
    .ofNumber code details
  | error => .other (toString error) 0

/-- The outcome of an operation on a path that may fail. No path holds a NUL. -/
def attempt {α : Type} (path : String) (action : IO α) : IO (Except SystemError α) := do
  if path.contains '\x00' then return .error .nulByte
  match ← action.toBaseIO with
  | .ok a => return .ok a
  | .error e => return .error (.ofError e)

instance : Files IO where
  read path := attempt path (IO.FS.readBinFile path)
  write path text := attempt path (IO.FS.writeFile path text)
  makeDirectory path := attempt path (IO.FS.createDir path)
  isDirectory path := do
    return (← attempt path (IO.FS.Handle.mk (path ++ "/.") .read)).isOk
  print text := IO.print text
  warn line := IO.eprintln line

end OverloadSuite

def main (args : List String) : IO UInt32 := OverloadSuite.Command.run args
