/-!
# Cutting a text at a separator

`splitAt?` cuts at the first occurrence of a separator, `splitOn` at every occurrence of a character
and `lines` at the ends of lines.
-/

namespace Standin.Text

/-- The rest of `s` after `p`, if `s` starts with `p`. -/
def dropLead? : List Char → List Char → Option (List Char)
  | [], s => some s
  | _ :: _, [] => none
  | p :: ps, c :: cs => if p = c then dropLead? ps cs else none

/-- What stands before and after the first occurrence of `sep`. -/
def splitAt? (sep : List Char) : List Char → Option (List Char × List Char)
  | [] => (dropLead? sep []).map fun rest => ([], rest)
  | c :: cs =>
    match dropLead? sep (c :: cs) with
    | some rest => some ([], rest)
    | none => (splitAt? sep cs).map fun (before, after) => (c :: before, after)

/-- The pieces between the occurrences of `sep`: one more than there are occurrences. -/
def splitOn (sep : Char) : List Char → List (List Char)
  | [] => [[]]
  | c :: cs =>
    if c = sep then [] :: splitOn sep cs
    else match splitOn sep cs with
      | [] => [[c]]
      | piece :: pieces => (c :: piece) :: pieces

/-- A carriage return right before a line feed belongs to the end of the line. -/
def dropReturn (line : List Char) : List Char :=
  if line.getLast? = some '\r' then line.dropLast else line

/-- The lines of a text without their ends, a line feed or a carriage return and a line feed. What
follows the last line feed is a line if it is not empty, and keeps a carriage return. -/
def linesFrom : List (List Char) → List (List Char)
  | [] => []
  | [last] => if last.isEmpty then [] else [last]
  | line :: rest => dropReturn line :: linesFrom rest

def lines (s : List Char) : List (List Char) :=
  linesFrom (splitOn '\n' s)

/-- The texts one after another with `sep` between them. -/
def joined (sep : String) (texts : List String) : String :=
  sep.intercalate texts

end Standin.Text
