import Standin.Command.Run

/-!
# The program

Commands run on the files of the machine.
-/

namespace Standin

namespace OsError

/-- The errors that commands meet in usual work. -/
def common : List OsError :=
  [notFound, alreadyThere, notADirectory, isADirectory, nameTooLong]

/-- The error with a code, which may come with the wrong sign. -/
def ofCode (code : UInt32) (details : String) : OsError :=
  let n := if code.toNat < Nat.pow 2 31 then code.toNat else UInt32.size - code.toNat
  (common.find? fun e => e.code = some n).getD ⟨details, some n⟩

/-- The error of the operating system behind an error of a file operation. -/
def ofError : IO.Error → OsError
  | .alreadyExists _ code details | .inappropriateType _ code details
  | .noSuchThing _ code details | .invalidArgument _ code details
  | .permissionDenied _ code details | .resourceExhausted _ code details
  | .interrupted _ code details | .noFileOrDirectory _ code details
  | .otherError code details | .resourceBusy code details | .resourceVanished code details
  | .unsupportedOperation code details | .hardwareFault code details
  | .unsatisfiedConstraints code details | .illegalOperation code details
  | .protocolError code details | .timeExpired code details =>
    ofCode code details
  | .unexpectedEof => ⟨"unexpected end of file", none⟩
  | .userError text => ⟨text, none⟩

end OsError

namespace Host

/-- Runs an operation on a path and keeps its error. -/
def caught {α : Type} (op : String → IO α) (path : String) : IO (Except OsError α) := do
  if path.contains '\x00' then return .error .nulInName
  match ← (op path).toBaseIO with
  | .ok a => return .ok a
  | .error e => return .error (.ofError e)

def readMachine (path : String) : IO (Except OsError String) :=
  caught (IO.FS.readFile ·) path

/-- The files of the machine. A file is what can be read, and reading a directory fails in a way of
its own. -/
def machine : Host IO where
  read := readMachine
  write path text := caught (IO.FS.writeFile · text) path
  createDir := caught (IO.FS.createDir ·)
  isFile path := return (← readMachine path).isOk
  isDir path := do
    match ← readMachine path with
    | .ok _ => return false
    | .error e => return e.code = OsError.isADirectory.code
  touch path := do
    let _ ← caught (IO.FS.Handle.mk · .append) path
  now := IO.monoMsNow

end Host

end Standin

def main (args : List String) : IO UInt32 := do
  let program := (← IO.appPath).fileName.getD "placebo"
  let outcome ← Standin.Command.run Standin.Host.machine program args
  (← IO.getStdout).putStr outcome.stdout
  (← IO.getStderr).putStr outcome.stderr
  return outcome.code
