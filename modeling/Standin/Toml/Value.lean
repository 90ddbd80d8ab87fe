import Standin.Toml.Scalar

/-!
# Arrays and inline tables of TOML

Arrays may go over several lines, hold comments and end in a comma; tables between braces may not.
-/

namespace Standin.Toml

/-- Skips blanks, ends of lines and comments. A comment stops before a character that it may not
hold. The flag says whether the place is inside a comment. -/
def skipGaps (inComment : Bool) : List Char → List Char
  | [] => []
  | '\r' :: '\n' :: rest => skipGaps false rest
  | c :: rest =>
    if c == '\n' then skipGaps false rest
    else if inComment then
      if isText c then skipGaps true rest else c :: rest
    else if isSpace c then skipGaps false rest
    else if c == '#' then skipGaps true rest
    else c :: rest

/-- The table that the entries between braces make. -/
def ofBraces? (entries : List ((List TomlKey × TomlKey) × Toml)) : Option Toml :=
  (entries.foldlM (fun table e => Entries.insert? table e.1.1 e.1.2 e.2) []).map
    (Toml.table .inline)

/- Each call has less fuel than its caller, and twice as much as there are characters is enough,
since two calls on the way down always take one. -/
mutual

/-- A value that may be nested `room` levels deep, in a document of `size` bytes. -/
def value? (size : Nat) : Nat → Nat → List Char → Option (Toml × List Char)
  | 0, _, _ => none
  | fuel + 1, room, s =>
    match s, room with
    | '[' :: rest, room + 1 => do
      let (items, rest) ← items? size fuel room rest
      return (.array items, rest)
    | '\x7b' :: rest, room + 1 => do
      match skipSpaces rest with
      | '\x7d' :: rest => return (.table .inline [], rest)
      | rest =>
        let (entries, rest) ← entries? size fuel room rest
        return (← ofBraces? entries, rest)
    | _, _ => scalarValue? size s

/-- The rest of an array. -/
def items? (size : Nat) : Nat → Nat → List Char → Option (List Toml × List Char)
  | 0, _, _ => none
  | fuel + 1, room, s =>
    match skipGaps false s with
    | ']' :: rest => some ([], rest)
    | s => do
      let (item, rest) ← value? size fuel room s
      match skipGaps false rest with
      | ',' :: rest =>
        let (items, rest) ← items? size fuel room rest
        return (item :: items, rest)
      | ']' :: rest => return ([item], rest)
      | _ => none

/-- The rest of a table between braces, which has another entry. -/
def entries? (size : Nat) :
    Nat → Nat → List Char → Option (List ((List TomlKey × TomlKey) × Toml) × List Char)
  | 0, _, _ => none
  | fuel + 1, room, s => do
    let (key, rest) ← path? size maxDepth s
    let (value, rest) ← value? size fuel room (skipSpaces (← mark? '=' rest))
    match skipSpaces rest with
    | ',' :: rest =>
      let (entries, rest) ← entries? size fuel room rest
      return ((key, value) :: entries, rest)
    | '\x7d' :: rest => return ([(key, value)], rest)
    | _ => none

end

end Standin.Toml
