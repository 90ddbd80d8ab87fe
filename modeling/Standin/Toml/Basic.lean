/-!
# TOML values

A document is a table, and a table keeps its entries in the order in which they came. Keys, strings
and dates carry the offset in bytes at which they start, for messages about them. A table also knows
how it was written, since that decides what may be added to it later: `Toml.Entries.descend` follows
a path through tables, making those that are missing.
-/

namespace Standin

/-- How a table came to be. -/
inductive TableForm
  /-- Named by a header of its own. -/
  | header
  /-- On the way to a table that a header names. -/
  | implied
  /-- On the way to a key with dots. -/
  | dotted
  /-- Between braces. -/
  | inline
deriving DecidableEq, Repr

structure TomlKey where
  name : String
  offset : Nat
deriving DecidableEq, Repr

inductive Toml
  | string (s : String) (offset : Nat)
  | integer (n : Int)
  | float
  | boolean (b : Bool)
  | date (offset : Nat)
  | array (items : List Toml)
  | table (form : TableForm) (entries : List (TomlKey × Toml))
  /-- The tables that repeated headers in double brackets name, as entries of each. -/
  | tables (elements : List (List (TomlKey × Toml)))
deriving Inhabited

namespace Toml

/-- The entries of a table. -/
abbrev Entries : Type := List (TomlKey × Toml)

namespace Entries

def find? (entries : Entries) (name : String) : Option Toml :=
  (List.find? (fun e => e.1.name = name) entries).map Prod.snd

/-- Puts another value in the place of an entry. -/
def set (entries : Entries) (name : String) (value : Toml) : Entries :=
  entries.map fun e => if e.1.name = name then (e.1, value) else e

def remove (entries : Entries) (name : String) : Entries :=
  entries.filter fun e => e.1.name ≠ name

/-- Follows a path to a table and changes its entries by `f`, which may also give a result. Tables
missing on the way are made, in the form `made`. Of an array of tables the last one is entered;
`mayEnter` says which tables may be. `f` is told the form of the table at the end of the path. -/
def descend {α : Type} (made : TableForm) (mayEnter : TableForm → Bool)
    (f : TableForm → Entries → Option (Entries × α)) :
    TableForm → Entries → List TomlKey → Option (Entries × α)
  | form, entries, [] => f form entries
  | _, entries, key :: path =>
    match find? entries key.name with
    | none => do
      let (inner, a) ← descend made mayEnter f made [] path
      return (entries ++ [(key, .table made inner)], a)
    | some (.table form inner) =>
      if mayEnter form then do
        let (inner, a) ← descend made mayEnter f form inner path
        return (entries.set key.name (.table form inner), a)
      else none
    | some (.tables elements) => do
      let last ← elements.getLast?
      let (last, a) ← descend made mayEnter f .header last path
      return (entries.set key.name (.tables (elements.dropLast ++ [last])), a)
    | some _ => none

/-- Adds an entry under a key with dots before it. A table that a header named is not entered, and
only tables made by keys with dots take an entry that way; no key comes twice. -/
def insert? (entries : Entries) (path : List TomlKey) (key : TomlKey) (value : Toml) :
    Option Entries :=
  let add (form : TableForm) (entries : Entries) : Option (Entries × Unit) :=
    if (path.isEmpty ∨ form = .dotted) ∧ (find? entries key.name).isNone then
      some (entries ++ [(key, value)], ())
    else none
  let mayEnter (form : TableForm) : Bool := form = .implied ∨ form = .dotted
  (descend .dotted mayEnter add .header entries path).map Prod.fst

end Entries

end Toml

end Standin
