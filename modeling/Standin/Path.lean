import Standin.Text.Split

/-!
# Paths of files

A path is a text with slashes between its parts. Slashes that follow one another count as one, and a
part `.` counts only at the start.
-/

namespace Standin.Path

/-- `child` seen from `base`. -/
def join (base child : String) : String :=
  if child.startsWith "/" then child
  else if base.isEmpty || base.endsWith "/" then base ++ child
  else base ++ "/" ++ child

/-- Drops slashes and parts `.` from the end of a path, which is given backwards, but neither the
root nor a path that is `.` alone. -/
def trimBack : List Char → List Char
  | ['/'] => ['/']
  | '/' :: rest => trimBack rest
  | '.' :: '/' :: rest => trimBack ('/' :: rest)
  | back => back

/-- The last part of a path and what stands before it, both backwards; nothing for the root and the
empty path. -/
def splitLast? (path : String) : Option (List Char × List Char) :=
  match trimBack path.toList.reverse with
  | [] | ['/'] => none
  | back => some (back.takeWhile (· ≠ '/'), back.dropWhile (· ≠ '/'))

/-- The path without its last part. -/
def parent? (path : String) : Option String :=
  (splitLast? path).map fun (_, before) => String.ofList (trimBack before).reverse

/-- The path and what is left when parts are dropped from its end, one at a time. -/
def ancestors (path : String) : List String :=
  go path.length path
where
  go : Nat → String → List String
    | 0, p => [p]
    | n + 1, p =>
      match parent? p with
      | none => [p]
      | some q => p :: go n q

/-- The last part without what follows its last point. A point at the start of the part does not
count, and parts that stand for directories have no stem. -/
def stem? (path : String) : Option String := do
  let (last, _) ← splitLast? path
  if last = ['.'] ∨ last = ['.', '.'] then none
  else
    match last.dropWhile (· ≠ '.') with
    | [] | ['.'] => some (String.ofList last.reverse)
    | _ :: before => some (String.ofList before.reverse)

end Standin.Path
