import Standin.Body
import Standin.Decimal.Layout
import Standin.Text.Quoted

/-!
# Bodies as text

The listing of a body (`Body.text`): its variables, its instructions with a label before each branch
target, and its handlers.
-/

namespace Standin

/-- Numbers are positional from `0.0001` to below `10 ^ 16`. -/
def Constant.layout : Layout := ⟨-4, 16, false, .up⟩

def Constant.text : Constant → String
  | int v => v.toInt.repr
  | long v => v.toInt.repr ++ "L"
  | float v => Constant.layout.text .single v.bits.toNat ++ "F"
  | double v => Constant.layout.text .double v.bits.toNat
  | string v => Text.quoted v
  | classOf t => "class \"" ++ t.text ++ "\""
  | null => "null"

/-- A name for every variable, also for one that the body does not declare. -/
def Variable.nameIn (vs : List Variable) (x : VarId) : String :=
  match vs[x]? with
  | some v => v.name
  | none => "<unknown local " ++ x.repr ++ ">"

def Operand.text (vs : List Variable) : Operand → String
  | var x => Variable.nameIn vs x
  | const c => c.text

def Invocation.text (vs : List Variable) (i : Invocation) : String :=
  i.dispatch.keyword ++ " " ++
    (match i.receiver with
    | some x => Variable.nameIn vs x ++ "."
    | none => "") ++
    i.callee.text ++ "(" ++ Text.joined ", " (i.args.map (Operand.text vs)) ++ ")"

def elementText (vs : List Variable) (base : VarId) (index : Operand) : String :=
  Variable.nameIn vs base ++ "[" ++ index.text vs ++ "]"

def instanceFieldText (vs : List Variable) (base : VarId) (field : FieldRef) : String :=
  Variable.nameIn vs base ++ "." ++ field.text

def Place.text (vs : List Variable) : Place → String
  | var x => Variable.nameIn vs x
  | arrayElement base index => elementText vs base index
  | staticField f => f.text
  | instanceField base f => instanceFieldText vs base f

/-- An array with one dimension and one length is written by its base, any other by its type. -/
def newArrayText (vs : List Variable) : ValueType → List Operand → String
  | .array base 1, [length] => "newarray (" ++ base.text ++ ")[" ++ length.text vs ++ "]"
  | t, lengths =>
    "newmultiarray (" ++ t.text ++ ")" ++
      String.join (lengths.map fun length => "[" ++ length.text vs ++ "]")

def Expr.text (vs : List Variable) : Expr → String
  | use o => o.text vs
  | new c => "new " ++ c
  | newArray t lengths => newArrayText vs t lengths
  | cast o t => "(" ++ t.text ++ ") " ++ o.text vs
  | staticField f => f.text
  | instanceField base f => instanceFieldText vs base f
  | arrayElement base index => elementText vs base index
  | invoke call => call.text vs
  | binary op left right => left.text vs ++ " " ++ op.symbol ++ " " ++ right.text vs

def Incoming.text : Incoming → String
  | this => "@this"
  | parameter i => "@parameter" ++ i.toNat.repr
  | caughtException => "@caughtexception"

def labelText (target : Nat) : String :=
  "label" ++ target.repr

def Instruction.text (vs : List Variable) : Instruction → String
  | bind dest source =>
    Variable.nameIn vs dest ++ " := " ++ source.text ++ ": " ++
      vs[dest]?.elim "" fun v => v.type.text
  | assign dest value => dest.text vs ++ " = " ++ value.text vs
  | invoke call => call.text vs
  | throw o => "throw " ++ o.text vs
  | branch c t => "if " ++ c.text vs ++ " != 0 goto " ++ labelText t
  | goto t => "goto " ++ labelText t
  | ret none => "return"
  | ret (some o) => "return " ++ o.text vs
  | nop => "nop"

def Handler.text (h : Handler) : String :=
  "catch " ++ h.exception ++ " from " ++ labelText h.start ++ " to " ++ labelText h.stop ++
    " with " ++ labelText h.entry

namespace Body

/-- The positions that have a label. -/
def targets (b : Body) : List Nat :=
  b.code.filterMap Instruction.target? ++ b.handlers.map Handler.entry

/-- The instructions from position `i` on, a line each, with the labels between them. -/
def codeText (vs : List Variable) (targets : List Nat) : Nat → List Instruction → String
  | _, [] => ""
  | i, instr :: rest =>
    (if i ∈ targets then "  " ++ labelText i ++ ":\n" else "") ++
      "    " ++ instr.text vs ++ ";\n" ++ codeText vs targets (i + 1) rest

def variablesText (vs : List Variable) : String :=
  String.join (vs.map fun v => "    " ++ v.type.text ++ " " ++ v.name ++ ";\n") ++
    if vs.isEmpty then "" else "\n"

/-- The listing of a body. -/
def text (b : Body) : String :=
  variablesText b.declared ++ codeText b.declared b.targets 0 b.code ++
    String.join (b.handlers.map fun h => "    " ++ h.text ++ ";\n")

end Body

end Standin
