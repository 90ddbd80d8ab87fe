import Standin.Text.Hex
import Standin.Toml.Basic

/-!
# Words of TOML

Blanks, comments, strings and keys. A reader takes the text from some place on and gives what it
read with the rest.
-/

namespace Standin.Toml

def isSpace (c : Char) : Bool :=
  c == ' ' || c == '\t'

def skipSpaces (s : List Char) : List Char :=
  s.dropWhile isSpace

/-- The rest after the end of a line, if one is there. -/
def newline? : List Char → Option (List Char)
  | '\n' :: rest => some rest
  | '\r' :: '\n' :: rest => some rest
  | _ => none

/-- Characters that comments and strings may hold: all but control characters, a tab excepted. -/
def isText (c : Char) : Bool :=
  c == '\t' || (0x20 ≤ c.toNat && c.toNat != 0x7f)

/-- Skips a comment, if one is there. -/
def skipComment : List Char → List Char
  | '#' :: rest => rest.dropWhile isText
  | s => s

/-- The rest after blanks, a comment and the end of the line or text. -/
def endOfLine? (s : List Char) : Option (List Char) :=
  match skipComment (skipSpaces s) with
  | [] => some []
  | rest => newline? rest

/-- How many bytes a text takes. -/
def bytes (s : List Char) : Nat :=
  s.foldl (fun n c => n + c.utf8Size) 0

/-! ### Strings -/

/-- The character whose code point the hexadecimal digits give. -/
def scalar? (digits : List Char) : Option Char := do
  let n ← Text.hexNumber? digits
  if n.isValidChar then some (Char.ofNat n) else none

/-- What a letter after a backslash stands for. -/
def escape? : Char → Option Char
  | 'b' => some '\x08'
  | 't' => some '\t'
  | 'n' => some '\n'
  | 'f' => some '\x0c'
  | 'r' => some '\r'
  | '"' => some '"'
  | '\\' => some '\\'
  | _ => none

/-- The rest of a string on one line, up to its closing quote. -/
def basicString : List Char → Option (List Char × List Char)
  | '"' :: rest => some ([], rest)
  | '\\' :: 'u' :: a :: b :: c :: d :: rest => do
    let x ← scalar? [a, b, c, d]
    let (s, rest) ← basicString rest
    return (x :: s, rest)
  | '\\' :: 'U' :: a :: b :: c :: d :: e :: f :: g :: h :: rest => do
    let x ← scalar? [a, b, c, d, e, f, g, h]
    let (s, rest) ← basicString rest
    return (x :: s, rest)
  | '\\' :: x :: rest => do
    let x ← escape? x
    let (s, rest) ← basicString rest
    return (x :: s, rest)
  | c :: rest =>
    if isText c && c != '\\' then do
      let (s, rest) ← basicString rest
      return (c :: s, rest)
    else none
  | [] => none

/-- The rest of a string in apostrophes, up to the closing one. -/
def literalString : List Char → Option (List Char × List Char)
  | '\x27' :: rest => some ([], rest)
  | c :: rest =>
    if isText c then do
      let (s, rest) ← literalString rest
      return (c :: s, rest)
    else none
  | [] => none

/-- The rest of a string over several lines, after three quotes. Up to two quotes may stand before
the three that close it. With `skipping`, blanks and ends of lines are left out, as they are after a
backslash at the end of a line. -/
def longBasicString (skipping : Bool) : List Char → Option (List Char × List Char)
  | '"' :: '"' :: '"' :: '"' :: '"' :: rest => some (['"', '"'], rest)
  | '"' :: '"' :: '"' :: '"' :: rest => some (['"'], rest)
  | '"' :: '"' :: '"' :: rest => some ([], rest)
  | '\\' :: 'u' :: a :: b :: c :: d :: rest => do
    let x ← scalar? [a, b, c, d]
    let (s, rest) ← longBasicString false rest
    return (x :: s, rest)
  | '\\' :: 'U' :: a :: b :: c :: d :: e :: f :: g :: h :: rest => do
    let x ← scalar? [a, b, c, d, e, f, g, h]
    let (s, rest) ← longBasicString false rest
    return (x :: s, rest)
  | '\\' :: c :: rest =>
    if (newline? (skipSpaces (c :: rest))).isSome then
      longBasicString true (c :: rest)
    else do
      let x ← escape? c
      let (s, rest) ← longBasicString false rest
      return (x :: s, rest)
  | '\r' :: '\n' :: rest =>
    if skipping then longBasicString true rest
    else do
      let (s, rest) ← longBasicString false rest
      return ('\n' :: s, rest)
  | c :: rest =>
    if skipping && (isSpace c || c == '\n') then longBasicString true rest
    else if c == '\n' || (isText c && c != '\\') then do
      let (s, rest) ← longBasicString false rest
      return (c :: s, rest)
    else none
  | [] => none

/-- The rest of a string over several lines, after three apostrophes. -/
def longLiteralString : List Char → Option (List Char × List Char)
  | '\x27' :: '\x27' :: '\x27' :: '\x27' :: '\x27' :: rest => some (['\x27', '\x27'], rest)
  | '\x27' :: '\x27' :: '\x27' :: '\x27' :: rest => some (['\x27'], rest)
  | '\x27' :: '\x27' :: '\x27' :: rest => some ([], rest)
  | '\r' :: '\n' :: rest => do
    let (s, rest) ← longLiteralString rest
    return ('\n' :: s, rest)
  | c :: rest =>
    if c == '\n' || isText c then do
      let (s, rest) ← longLiteralString rest
      return (c :: s, rest)
    else none
  | [] => none

/-- The end of a line right after the opening of a long string does not belong to it. -/
def skipNewline (s : List Char) : List Char :=
  (newline? s).getD s

/-- A string that may be a key. -/
def shortString? : List Char → Option (List Char × List Char)
  | '"' :: rest => basicString rest
  | '\x27' :: rest => literalString rest
  | _ => none

def string? : List Char → Option (List Char × List Char)
  | '"' :: '"' :: '"' :: rest => longBasicString false (skipNewline rest)
  | '\x27' :: '\x27' :: '\x27' :: rest => longLiteralString (skipNewline rest)
  | s => shortString? s

/-! ### Keys -/

/-- A character of a key without quotes. -/
def isBare (c : Char) : Bool :=
  c.isAlphanum || c == '_' || c == '-'

/-- A key without dots, in a document of `size` bytes. -/
def key? (size : Nat) (s : List Char) : Option (TomlKey × List Char) :=
  let named (name rest : List Char) : TomlKey × List Char :=
    (⟨String.ofList name, size - bytes s⟩, rest)
  match s with
  | '"' :: _ | '\x27' :: _ => (shortString? s).map fun (name, rest) => named name rest
  | _ =>
    match s.takeWhile isBare with
    | [] => none
    | name => some (named name (s.dropWhile isBare))

/-- How many parts a key may have, and how deep arrays and tables may be nested. -/
def maxDepth : Nat := 79

/-- A key of at most `room` parts, with blanks around each: the parts before the last one, and the
last one. -/
def path? (size : Nat) : Nat → List Char → Option ((List TomlKey × TomlKey) × List Char)
  | 0, _ => none
  | room + 1, s => do
    let (key, rest) ← key? size (skipSpaces s)
    match skipSpaces rest with
    | '.' :: rest =>
      let ((front, last), rest) ← path? size room rest
      return ((key :: front, last), rest)
    | rest => return (([], key), rest)

end Standin.Toml
