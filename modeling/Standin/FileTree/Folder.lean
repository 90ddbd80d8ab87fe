/-!
# Folders

What a directory holds: text files and directories, each under a name of its own. Names are looked
up from the front (`Folder.find?`), and what is put in under a new name comes last (`Folder.put`).
-/

namespace Standin

inductive Folder
  | empty
  | file (name text : String) (rest : Folder)
  | folder (name : String) (inside rest : Folder)
deriving DecidableEq, Repr

/-- What a name in a folder stands for. -/
inductive Entry
  | file (text : String)
  | directory (inside : Folder)
deriving DecidableEq, Repr

namespace Folder

/-- The folder with an entry in front. -/
def cons (name : String) (e : Entry) (rest : Folder) : Folder :=
  match e with
  | .file text => .file name text rest
  | .directory inside => .folder name inside rest

def find? (name : String) : Folder → Option Entry
  | empty => none
  | file n text rest => if n = name then some (.file text) else rest.find? name
  | folder n inside rest => if n = name then some (.directory inside) else rest.find? name

/-- Gives a name a new meaning. -/
def put (name : String) (e : Entry) : Folder → Folder
  | empty => cons name e empty
  | file n text rest => if n = name then cons name e rest else file n text (rest.put name e)
  | folder n inside rest =>
    if n = name then cons name e rest else folder n inside (rest.put name e)

/-- Gives the last of some names a new meaning, in the directory that the names before it lead to;
nothing changes if they lead nowhere. -/
def putAt : List String → Entry → Folder → Folder
  | [], _, f => f
  | [name], e, f => f.put name e
  | name :: rest, e, f =>
    match f.find? name with
    | some (.directory inside) => f.put name (.directory (inside.putAt rest e))
    | _ => f

/-- A folder with directories inside one another. -/
def nested : List String → Folder
  | [] => empty
  | name :: rest => folder name (nested rest) empty

/-- The files by their paths from the folder. -/
def files : Folder → List (String × String)
  | empty => []
  | file name text rest => (name, text) :: rest.files
  | folder name inside rest =>
    inside.files.map (fun (path, text) => (name ++ "/" ++ path, text)) ++ rest.files

@[simp]
theorem find?_cons (name other : String) (e : Entry) (f : Folder) :
    (cons name e f).find? other = if name = other then some e else f.find? other := by
  cases e <;> simp [cons, find?]

/-- What was put in under a name is found there, and nothing else changes. -/
@[simp]
theorem find?_put (name other : String) (e : Entry) (f : Folder) :
    (f.put name e).find? other = if name = other then some e else f.find? other := by
  induction f with
  | empty => simp [put, find?]
  | file n text rest ih =>
    by_cases h : n = name
    · subst h; by_cases ho : n = other <;> simp [put, find?, ho]
    · by_cases ho : n = other
      · subst ho; simp [put, find?, h, Ne.symm h]
      · simp [put, find?, h, ho, ih]
  | folder n inside rest _ ih =>
    by_cases h : n = name
    · subst h; by_cases ho : n = other <;> simp [put, find?, ho]
    · by_cases ho : n = other
      · subst ho; simp [put, find?, h, Ne.symm h]
      · simp [put, find?, h, ho, ih]

end Folder

end Standin
