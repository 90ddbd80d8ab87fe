import Standin.Toml.Value

/-!
# TOML documents

A document is read line by line, except that long strings and arrays take further lines. Headers say
to which table the entries after them belong. The table of a header is put in its place when the
next header or the end comes, so a table that was implied before moves behind those named since.
-/

namespace Standin.Toml

/-- What has been read: the whole table without the part being read, and that part. -/
structure Document where
  root : Entries
  /-- The table that the last header names: the path to it and its own key; `none` before the first
  header. -/
  place : Option (List TomlKey × TomlKey)
  /-- The header had double brackets. -/
  isElement : Bool
  current : Entries

namespace Document

def empty : Document := ⟨[], none, false, []⟩

/-- Headers may pass every table that is not between braces. -/
def mayPass (form : TableForm) : Bool :=
  form ≠ .inline

/-- The whole table with the part being read in its place. -/
def close? (d : Document) : Option Entries :=
  match d.place with
  | none => some d.current
  | some (path, key) =>
    let put (_ : TableForm) (entries : Entries) : Option (Entries × Unit) :=
      if d.isElement then
        match entries.find? key.name with
        | some (.tables elements) =>
          some (entries.set key.name (.tables (elements ++ [d.current])), ())
        | _ => none
      else some (entries ++ [(key, .table .header d.current)], ())
    (Entries.descend .implied mayPass put .header d.root path).map Prod.fst

/-- Starts the table of a header. A table that was only implied so far keeps its entries; any other
may not be named again. -/
def startTable? (d : Document) (path : List TomlKey) (key : TomlKey) : Option Document := do
  let take (_ : TableForm) (entries : Entries) : Option (Entries × Entries) :=
    match entries.find? key.name with
    | none => some (entries, [])
    | some (.table .implied inner) => some (entries.remove key.name, inner)
    | some _ => none
  let (root, current) ← Entries.descend .implied mayPass take .header (← d.close?) path
  return ⟨root, some (path, key), false, current⟩

/-- Starts another table of an array of tables. -/
def startElement? (d : Document) (path : List TomlKey) (key : TomlKey) : Option Document := do
  let find (_ : TableForm) (entries : Entries) : Option (Entries × Unit) :=
    match entries.find? key.name with
    | none => some (entries ++ [(key, .tables [])], ())
    | some (.tables _) => some (entries, ())
    | some _ => none
  let (root, _) ← Entries.descend .implied mayPass find .header (← d.close?) path
  return ⟨root, some (path, key), true, []⟩

/-- Adds an entry to the table of the last header. -/
def insert? (d : Document) (path : List TomlKey) (key : TomlKey) (value : Toml) :
    Option Document := do
  return { d with current := ← d.current.insert? path key value }

/-- Reads one header or entry of a text of `size` bytes, which starts with neither a blank nor the
end of a line. -/
def step? (size : Nat) (d : Document) (s : List Char) : Option (Document × List Char) :=
  match s with
  | '[' :: '[' :: rest => do
    let ((path, key), rest) ← path? size maxDepth rest
    let rest ← endOfLine? (← mark? ']' (← mark? ']' rest))
    return (← d.startElement? path key, rest)
  | '[' :: rest => do
    let ((path, key), rest) ← path? size maxDepth rest
    let rest ← endOfLine? (← mark? ']' rest)
    return (← d.startTable? path key, rest)
  | _ => do
    let ((path, key), rest) ← path? size maxDepth s
    let rest := skipSpaces (← mark? '=' rest)
    let (value, rest) ← value? size (2 * rest.length + 1) maxDepth rest
    return (← d.insert? path key value, ← endOfLine? rest)

/-- Reads the rest of a text of `size` bytes. Each step takes a character at least. -/
def read? (size : Nat) : Nat → Document → List Char → Option Document
  | 0, d, s => if s.isEmpty then some d else none
  | fuel + 1, d, s =>
    match skipGaps false s with
    | [] => some d
    | s => do
      let (d, rest) ← step? size d s
      read? size fuel d rest

end Document

/-- The table that a text describes. A byte order mark in front is skipped. -/
def parse? (text : String) : Option Entries := do
  let s := text.toList
  let body := match s with
    | '\uFEFF' :: rest => rest
    | _ => s
  (← Document.read? (bytes s) body.length .empty body).close?

end Standin.Toml
