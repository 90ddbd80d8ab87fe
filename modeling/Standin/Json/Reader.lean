import Standin.Json.Token

/-!
# Reading JSON

A value is put together from its words one at a time. The state between two words is what may come
next, with the arrays and objects that are still open (`State.step`); no depth of nesting is refused
here.
-/

namespace Standin.Json

/-- An array or object that is still open, with what it holds so far, the last first. -/
inductive Frame
  | array (items : List Json)
  | object (members : List (Option String × Json))
  /-- An object whose next member has a key and awaits its value. -/
  | member (members : List (Option String × Json)) (key : Option String)

/-- What may come next. -/
inductive State
  | value (stack : List Frame)
  /-- Right after an opening bracket: a value or the closing bracket. -/
  | firstItem (stack : List Frame)
  /-- Right after an opening brace: a key or the closing brace. -/
  | firstKey (stack : List Frame)
  | key (members : List (Option String × Json)) (stack : List Frame)
  | colon (members : List (Option String × Json)) (key : Option String) (stack : List Frame)
  /-- After a value: a comma, or the end of the innermost open array or object. -/
  | next (frame : Frame) (stack : List Frame)
  | done (value : Json)

namespace State

/-- An object with its members in order; one whose keys are not all texts denotes nothing. -/
def closeObject (members : List (Option String × Json)) : Json :=
  match members.reverse.mapM fun (k, v) => k.map fun k => (k, v) with
  | some ms => .object ms
  | none => .unreadable

/-- A complete value goes into the innermost open array or object. -/
def plug (v : Json) : List Frame → State
  | [] => .done v
  | .array items :: stack => .next (.array (v :: items)) stack
  | .member ms k :: stack => .next (.object ((k, v) :: ms)) stack
  | .object ms :: stack => .next (.object ms) stack

/-- A word where a value is expected. -/
def startValue (stack : List Frame) : Token → Option State
  | .openArray => some (.firstItem stack)
  | .openObject => some (.firstKey stack)
  | .null => some (plug .null stack)
  | .bool b => some (plug (.bool b) stack)
  | .int n => some (plug (.int n) stack)
  | .number n => some (plug (.number n) stack)
  | .string (some s) => some (plug (.string s) stack)
  | .string none => some (plug .unreadable stack)
  | _ => none

def step : State → Token → Option State
  | .value stack, t => startValue stack t
  | .firstItem stack, .closeArray => some (plug (.array []) stack)
  | .firstItem stack, t => startValue (.array [] :: stack) t
  | .firstKey stack, .closeObject => some (plug (.object []) stack)
  | .firstKey stack, .string k => some (.colon [] k stack)
  | .key ms stack, .string k => some (.colon ms k stack)
  | .colon ms k stack, .colon => some (.value (.member ms k :: stack))
  | .next (.array items) stack, .comma => some (.value (.array items :: stack))
  | .next (.array items) stack, .closeArray => some (plug (.array items.reverse) stack)
  | .next (.object ms) stack, .comma => some (.key ms stack)
  | .next (.object ms) stack, .closeObject => some (plug (closeObject ms) stack)
  | _, _ => none

/-- The value, if one is complete. -/
def result? : State → Option Json
  | .done v => some v
  | _ => none

end State

/-- The value that the words spell. -/
def ofTokens? (ts : List Token) : Option Json := do
  (← ts.foldlM State.step (State.value [])).result?

/-- The value that a JSON text denotes. -/
def parse? (s : String) : Option Json :=
  (Token.scan s.toList).bind ofTokens?

end Standin.Json
