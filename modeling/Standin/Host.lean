import Standin.Path

/-!
# What a run needs from outside

A `Host` offers files and a clock. Commands are written for any host: the outer layer gives them the
real one, and `FileTree` is one that lives in memory.
-/

namespace Standin

/-- Why a file operation failed. -/
structure OsError where
  description : String
  code : Option Nat
deriving DecidableEq, Repr

namespace OsError

def notFound : OsError := ⟨"No such file or directory", some 2⟩

def alreadyThere : OsError := ⟨"File exists", some 17⟩

def notADirectory : OsError := ⟨"Not a directory", some 20⟩

def isADirectory : OsError := ⟨"Is a directory", some 21⟩

def nameTooLong : OsError := ⟨"File name too long", some 36⟩

def nulInName : OsError := ⟨"file name contained an unexpected NUL byte", none⟩

def incompleteTree : OsError := ⟨"failed to create whole tree", none⟩

def message (e : OsError) : String :=
  match e.code with
  | some n => e.description ++ " (os error " ++ n.repr ++ ")"
  | none => e.description

end OsError

structure Host (m : Type → Type) where
  read : String → m (Except OsError String)
  /-- Writes a file from its start. -/
  write : String → String → m (Except OsError Unit)
  /-- Makes one directory. -/
  createDir : String → m (Except OsError Unit)
  isFile : String → m Bool
  isDir : String → m Bool
  /-- Makes a file if there is none and it can be made. -/
  touch : String → m Unit
  /-- A clock that counts milliseconds. -/
  now : m Nat

namespace Host

variable {m : Type → Type} [Monad m]

/-- Makes a directory unless it is there. -/
def ensureDir (h : Host m) (path : String) : m (Except OsError Unit) := do
  match ← h.createDir path with
  | .ok () => return .ok ()
  | .error e => return if ← h.isDir path then .ok () else .error e

/-- Makes the first directory of a list, each of which is the parent of the one before it. Parents
are made only if they are missing. -/
def ensureFirst (h : Host m) : List String → m (Except OsError Unit)
  | [] => return .error .incompleteTree
  | path :: parents => do
    if path.isEmpty then return .ok ()
    match ← h.createDir path with
    | .ok () => return .ok ()
    | .error e =>
      if e = .notFound then
        match ← h.ensureFirst parents with
        | .ok () => h.ensureDir path
        | .error e => return .error e
      else return if ← h.isDir path then .ok () else .error e

/-- Makes a directory with its parents. -/
def createDirs (h : Host m) (path : String) : m (Except OsError Unit) :=
  h.ensureFirst (Path.ancestors path)

end Host

end Standin
