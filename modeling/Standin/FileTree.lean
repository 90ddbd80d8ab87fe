import Standin.FileTree.Folder
import Standin.Host

/-!
# Files in memory

A tree of directories and text files with a working directory. `FileTree.host` offers it to
commands.
-/

namespace Standin

structure FileTree where
  root : Folder
  /-- The names that lead to the working directory from the root. -/
  workingDir : List String
deriving DecidableEq, Repr

namespace FileTree

/-- An empty working directory. -/
def empty (workingDir : List String) : FileTree :=
  ⟨.nested workingDir, workingDir⟩

/-- A way down from the root: the directories on it with what they hold, the last one first. -/
abbrev Trail := List (String × Folder)

def Trail.names (trail : Trail) : List String :=
  (trail.map Prod.fst).reverse

/-- What the directory at the end of a way holds. -/
def inside (t : FileTree) (trail : Trail) : Folder :=
  match trail with
  | [] => t.root
  | (_, folder) :: _ => folder

/-- What a name leads to from a directory. -/
inductive Target
  | file (text : String)
  | directory (trail : Trail)
  | missing

/-- How many bytes a name may have. -/
def maxName : Nat := 255

/-- How many bytes a path may have. -/
def maxPath : Nat := 4095

def lookup (t : FileTree) (trail : Trail) (name : String) : Except OsError Target :=
  if maxName < name.utf8ByteSize then .error .nameTooLong
  else if name = "." then .ok (.directory trail)
  else if name = ".." then .ok (.directory trail.tail)
  else
    match (t.inside trail).find? name with
    | some (.directory folder) => .ok (.directory ((name, folder) :: trail))
    | some (.file text) => .ok (.file text)
    | none => .ok .missing

/-- Follows names from directory to directory. -/
def walk (t : FileTree) : Trail → List String → Except OsError Trail
  | trail, [] => .ok trail
  | trail, name :: rest => do
    match ← t.lookup trail name with
    | .directory trail => walk t trail rest
    | .file _ => .error .notADirectory
    | .missing => .error .notFound

/-- Where a path leads: a name, to be looked up in a directory. -/
structure Spot where
  place : Trail
  name : String
  /-- The path ended in a slash, so it means a directory. -/
  slash : Bool

/-- The names that lead to a spot from the root. -/
def Spot.names (s : Spot) : List String :=
  s.place.names ++ [s.name]

/-- Follows all names of a path but the last. The root is `.` from itself. -/
def locate (t : FileTree) (path : String) : Except OsError Spot :=
  if path.isEmpty then .error .notFound
  else if path.contains '\x00' then .error .nulInName
  else if maxPath < path.utf8ByteSize then .error .nameTooLong
  else do
    let names := ((Text.splitOn '/' path.toList).filter fun n => !n.isEmpty).map String.ofList
    let start ← if path.startsWith "/" then pure [] else t.walk [] t.workingDir
    return ⟨← t.walk start names.dropLast, names.getLastD ".", path.endsWith "/"⟩

def put (t : FileTree) (s : Spot) (e : Entry) : FileTree :=
  { t with root := t.root.putAt s.names e }

def read (t : FileTree) (path : String) : Except OsError String := do
  let spot ← t.locate path
  match ← t.lookup spot.place spot.name with
  | .missing => .error .notFound
  | .directory _ => .error .isADirectory
  | .file text => if spot.slash then .error .notADirectory else .ok text

/-- Writes a file. A path that ends in a slash is refused before its last name is looked up. -/
def write (t : FileTree) (path text : String) : Except OsError FileTree := do
  let spot ← t.locate path
  if spot.slash then .error .isADirectory
  else
    match ← t.lookup spot.place spot.name with
    | .directory _ => .error .isADirectory
    | _ => .ok (t.put spot (.file text))

def createDir (t : FileTree) (path : String) : Except OsError FileTree := do
  let spot ← t.locate path
  match ← t.lookup spot.place spot.name with
  | .missing => .ok (t.put spot (.directory .empty))
  | _ => .error .alreadyThere

def isFile (t : FileTree) (path : String) : Bool :=
  (t.read path).isOk

def isDir (t : FileTree) (path : String) : Bool :=
  match t.read path with
  | .error e => e = .isADirectory
  | .ok _ => false

/-- An operation that leaves the tree as it is if it fails. -/
def update (op : FileTree → Except OsError FileTree) : StateM FileTree (Except OsError Unit) :=
  fun t =>
    match op t with
    | .ok t => (.ok (), t)
    | .error e => (.error e, t)

/-- The tree as a host. Its clock stands still. -/
def host : Host (StateM FileTree) where
  read path := return (← get).read path
  write path text := update fun t => t.write path text
  createDir path := update fun t => t.createDir path
  isFile path := return (← get).isFile path
  isDir path := return (← get).isDir path
  touch path := do
    unless (← get).isFile path do
      let _ ← update fun t => t.write path ""
  now := return 0

/-- Adds a file with the directories that lead to it. -/
def add (t : FileTree) (path text : String) : FileTree :=
  let make : StateM FileTree Unit := do
    if let some parent := Path.parent? path then
      let _ ← host.createDirs parent
    let _ ← host.write path text
  (make.run t).2

/-- The files below the working directory, by their paths from there. -/
def localFiles (t : FileTree) : List (String × String) :=
  match t.walk [] t.workingDir with
  | .ok trail => (t.inside trail).files
  | .error _ => []

end FileTree

end Standin
