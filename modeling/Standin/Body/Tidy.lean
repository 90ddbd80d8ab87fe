import Standin.Body

/-!
# Tidy bodies

`Body.dropNops` takes out the instructions that do nothing, `Body.renumber` keeps the variables that
are used, numbers them in the order of their first use and names them by their types. `Body.tidy`
does both.
-/

namespace Standin

/-- The instructions that stay: all but those that do nothing, and the last one in any case. -/
def survivors : List Instruction → List Instruction
  | [] => []
  | [i] => [i]
  | i :: j :: rest => if i.isNop then survivors (j :: rest) else i :: survivors (j :: rest)

/-- How many of the instructions before position `t` stay: the new position of the first instruction
from `t` on that stays. -/
def survivorsBefore : List Instruction → Nat → Nat
  | _, 0 => 0
  | [], _ + 1 => 0
  | [_], _ + 1 => 1
  | i :: j :: rest, t + 1 =>
    if i.isNop then survivorsBefore (j :: rest) t else survivorsBefore (j :: rest) t + 1

def Handler.mapTargets (f : Nat → Nat) (h : Handler) : Handler :=
  { h with start := f h.start, stop := f h.stop, entry := f h.entry }

namespace Body

/-- The body without the instructions that do nothing. A target that falls on one of them moves to
the next that stays, one behind the end moves to the end. If nothing is taken out, no target moves.
-/
def dropNops (b : Body) : Body :=
  let kept := survivors b.code
  if kept.length = b.code.length then b
  else
    let move := survivorsBefore b.code
    { b with
      code := kept.map (Instruction.mapTarget move)
      handlers := b.handlers.map (Handler.mapTargets move) }

/-- The declared variables in the order of their first use. -/
def usedVars (b : Body) : List VarId :=
  ((b.code.flatMap Instruction.vars).filter (· < b.declared.length)).eraseDups

end Body

/-- The letter that the names of variables of a type start with. -/
def ValueType.letter : ValueType → Char
  | .primitive .boolean => 'z'
  | .primitive .byte => 'b'
  | .primitive .char => 'c'
  | .primitive .short => 's'
  | .primitive .int => 'i'
  | .primitive .long => 'l'
  | .primitive .float => 'f'
  | .primitive .double => 'd'
  | _ => 'r'

/-- Variables of the given types, named by their letter and how many variables with this letter come
before them; `seen` are the letters before the list. -/
def Variable.named : List Char → List ValueType → List Variable
  | _, [] => []
  | seen, t :: ts =>
    ⟨String.ofList (t.letter :: Nat.toDigits 10 (seen.count t.letter)), t⟩ ::
      Variable.named (t.letter :: seen) ts

/-- The number of a variable among those in use; one that is not declared keeps its number. -/
def VarId.renumbered (declared : Nat) (used : List VarId) (x : VarId) : VarId :=
  if x < declared then used.idxOf x else x

namespace Body

/-- The body with the variables that it uses, numbered by first use and named by type. -/
def renumber (b : Body) : Body :=
  let used := b.usedVars
  { b with
    declared := Variable.named [] (used.filterMap b.typeOf?)
    code := b.code.map (Instruction.mapVars (VarId.renumbered b.declared.length used)) }

def tidy (b : Body) : Body :=
  b.dropNops.renumber

end Body

end Standin
