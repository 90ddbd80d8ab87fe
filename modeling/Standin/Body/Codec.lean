import Standin.Body
import Standin.MethodRef.Codec

/-!
# Bodies as JSON
-/

namespace Standin

/-- A variable is written by its position, which has 32 bits. -/
def VarId.toJson (x : VarId) : Json :=
  .int x

def VarId.decoder : Decoder VarId :=
  Decoder.nat UInt32.size

/-- A position of an instruction, which has 64 bits. -/
def targetDecoder : Decoder Nat :=
  Decoder.nat UInt64.size

namespace Variable

def toJson (v : Variable) : Json :=
  .object [("name", .string v.name), ("ty", v.type.toJson)]

def decoder : Decoder Variable :=
  Decoder.record ["name", "ty"] fun
    | room, [n, t] => do
      return ⟨← Decoder.string.required room n, ← ValueType.decoder.required room t⟩
    | _, _ => none

end Variable

namespace Constant

def toJson : Constant → Json
  | int v => .object [("int", .int v.toInt)]
  | long v => .object [("long", .int v.toInt)]
  | float v => .object [("float", .ofSingle v)]
  | double v => .object [("double", .ofDouble v)]
  | string v => .object [("string", .string v)]
  | classOf t => .object [("class", t.toJson)]
  | null => .string "null"

def decoder : Decoder Constant :=
  Decoder.orElse
    (Decoder.keyword fun tag => if tag = "null" then some null else none)
    (Decoder.tagged fun
      | "int" => some (Decoder.int32.map int)
      | "long" => some (Decoder.int64.map long)
      | "float" => some fun _ j => j.single?.map float
      | "double" => some fun _ j => j.double?.map double
      | "string" => some (Decoder.string.map string)
      | "class" => some (ValueType.decoder.map classOf)
      | _ => none)

end Constant

namespace Operand

def toJson : Operand → Json
  | var x => .object [("local", VarId.toJson x)]
  | const c => .object [("const", c.toJson)]

def decoder : Decoder Operand :=
  Decoder.tagged fun
    | "local" => some (VarId.decoder.map var)
    | "const" => some (Constant.decoder.map const)
    | _ => none

end Operand

namespace Dispatch

def tag : Dispatch → String
  | static => "static"
  | special => "special"
  | interface => "interface"
  | virtual => "virtual"
  | dynamic => "dynamic"

def all : List Dispatch :=
  [static, special, interface, virtual, dynamic]

def toJson (d : Dispatch) : Json :=
  .string d.tag

def decoder : Decoder Dispatch :=
  Decoder.keyword fun word => all.find? fun d => d.tag = word

end Dispatch

namespace Invocation

/-- The receiver is left out when there is none. -/
def toJson (i : Invocation) : Json :=
  .object (
    [("kind", i.dispatch.toJson), ("callee", i.callee.toJson)] ++
    i.receiver.toList.map (fun x => ("base", VarId.toJson x)) ++
    [("args", .array (i.args.map Operand.toJson))])

def decoder : Decoder Invocation :=
  Decoder.record ["kind", "callee", "base", "args"] fun
    | room, [k, c, b, as] => do
      return ⟨← Dispatch.decoder.required room k, ← MethodRef.decoder.required room c,
        ← VarId.decoder.optional.withDefault none room b,
        ← Operand.decoder.list.withDefault [] room as⟩
    | _, _ => none

end Invocation

namespace BinaryOp

def tag : BinaryOp → String
  | add => "add"
  | sub => "sub"
  | mul => "mul"
  | div => "div"
  | rem => "rem"
  | and => "and"
  | or => "or"
  | xor => "xor"
  | shl => "shl"
  | shr => "shr"
  | ushr => "ushr"
  | cmp => "cmp"
  | eq => "eq"
  | ne => "ne"
  | lt => "lt"
  | le => "le"
  | gt => "gt"
  | ge => "ge"

def all : List BinaryOp :=
  [add, sub, mul, div, rem, and, or, xor, shl, shr, ushr, cmp, eq, ne, lt, le, gt, ge]

def toJson (op : BinaryOp) : Json :=
  .string op.tag

def decoder : Decoder BinaryOp :=
  Decoder.keyword fun word => all.find? fun op => op.tag = word

end BinaryOp

/-- An array element, as a value and as a place. -/
def elementJson (base : VarId) (index : Operand) : Json :=
  .object [("base", VarId.toJson base), ("index", index.toJson)]

def elementDecoder : Decoder (VarId × Operand) :=
  Decoder.record ["base", "index"] fun
    | room, [b, i] => do
      return (← VarId.decoder.required room b, ← Operand.decoder.required room i)
    | _, _ => none

/-- A field of an object, as a value and as a place. -/
def instanceFieldJson (base : VarId) (field : FieldRef) : Json :=
  .object [("base", VarId.toJson base), ("field", field.toJson)]

def instanceFieldDecoder : Decoder (VarId × FieldRef) :=
  Decoder.record ["base", "field"] fun
    | room, [b, f] => do
      return (← VarId.decoder.required room b, ← FieldRef.decoder.required room f)
    | _, _ => none

namespace Expr

def toJson : Expr → Json
  | use o => .object [("use", o.toJson)]
  | new c => .object [("new", .string c)]
  | newArray t lengths =>
    .object [("new_array",
      .object [("ty", t.toJson), ("lengths", .array (lengths.map Operand.toJson))])]
  | cast o t => .object [("cast", .object [("operand", o.toJson), ("target", t.toJson)])]
  | staticField f => .object [("static_field", f.toJson)]
  | instanceField base f => .object [("instance_field", instanceFieldJson base f)]
  | arrayElement base index => .object [("array_element", elementJson base index)]
  | invoke call => .object [("invoke", call.toJson)]
  | binary op left right =>
    .object [("binary",
      .object [("op", op.toJson), ("lhs", left.toJson), ("rhs", right.toJson)])]

def newArrayDecoder : Decoder Expr :=
  Decoder.record ["ty", "lengths"] fun
    | room, [t, ls] => do
      return newArray (← ValueType.decoder.required room t)
        (← Operand.decoder.list.required room ls)
    | _, _ => none

def castDecoder : Decoder Expr :=
  Decoder.record ["operand", "target"] fun
    | room, [o, t] => do
      return cast (← Operand.decoder.required room o) (← ValueType.decoder.required room t)
    | _, _ => none

def binaryDecoder : Decoder Expr :=
  Decoder.record ["op", "lhs", "rhs"] fun
    | room, [op, l, r] => do
      return binary (← BinaryOp.decoder.required room op) (← Operand.decoder.required room l)
        (← Operand.decoder.required room r)
    | _, _ => none

def decoder : Decoder Expr :=
  Decoder.tagged fun
    | "use" => some (Operand.decoder.map use)
    | "new" => some (Decoder.string.map new)
    | "new_array" => some newArrayDecoder
    | "cast" => some castDecoder
    | "static_field" => some (FieldRef.decoder.map staticField)
    | "instance_field" => some (instanceFieldDecoder.map fun (b, f) => instanceField b f)
    | "array_element" => some (elementDecoder.map fun (b, i) => arrayElement b i)
    | "invoke" => some (Invocation.decoder.map invoke)
    | "binary" => some binaryDecoder
    | _ => none

end Expr

namespace Place

def toJson : Place → Json
  | var x => .object [("local", VarId.toJson x)]
  | arrayElement base index => .object [("array_element", elementJson base index)]
  | staticField f => .object [("static_field", f.toJson)]
  | instanceField base f => .object [("instance_field", instanceFieldJson base f)]

def decoder : Decoder Place :=
  Decoder.tagged fun
    | "local" => some (VarId.decoder.map var)
    | "array_element" => some (elementDecoder.map fun (b, i) => arrayElement b i)
    | "static_field" => some (FieldRef.decoder.map staticField)
    | "instance_field" => some (instanceFieldDecoder.map fun (b, f) => instanceField b f)
    | _ => none

end Place

namespace Incoming

def toJson : Incoming → Json
  | this => .string "this"
  | parameter i => .object [("parameter", .int i.toNat)]
  | caughtException => .string "caught_exception"

def decoder : Decoder Incoming :=
  Decoder.orElse
    (Decoder.keyword fun
      | "this" => some this
      | "caught_exception" => some caughtException
      | _ => none)
    (Decoder.tagged fun tag =>
      if tag = "parameter" then some (Decoder.uint16.map parameter) else none)

end Incoming

namespace Instruction

def toJson : Instruction → Json
  | bind dest source =>
    .object [("identity", .object [("dest", VarId.toJson dest), ("source", source.toJson)])]
  | assign dest value =>
    .object [("assign", .object [("dest", dest.toJson), ("value", value.toJson)])]
  | invoke call => .object [("invoke", call.toJson)]
  | throw o => .object [("throw", o.toJson)]
  | branch c t => .object [("if", .object [("condition", c.toJson), ("target", .int t)])]
  | goto t => .object [("goto", .int t)]
  | ret o => .object [("return", o.elim .null Operand.toJson)]
  | nop => .string "nop"

def bindDecoder : Decoder Instruction :=
  Decoder.record ["dest", "source"] fun
    | room, [d, s] => do
      return bind (← VarId.decoder.required room d) (← Incoming.decoder.required room s)
    | _, _ => none

def assignDecoder : Decoder Instruction :=
  Decoder.record ["dest", "value"] fun
    | room, [d, v] => do
      return assign (← Place.decoder.required room d) (← Expr.decoder.required room v)
    | _, _ => none

def branchDecoder : Decoder Instruction :=
  Decoder.record ["condition", "target"] fun
    | room, [c, t] => do
      return branch (← Operand.decoder.required room c) (← targetDecoder.required room t)
    | _, _ => none

def decoder : Decoder Instruction :=
  Decoder.orElse
    (Decoder.keyword fun tag => if tag = "nop" then some nop else none)
    (Decoder.tagged fun
      | "identity" => some bindDecoder
      | "assign" => some assignDecoder
      | "invoke" => some (Invocation.decoder.map invoke)
      | "throw" => some (Operand.decoder.map throw)
      | "if" => some branchDecoder
      | "goto" => some (targetDecoder.map goto)
      | "return" => some (Operand.decoder.optional.map ret)
      | _ => none)

end Instruction

namespace Handler

def toJson (h : Handler) : Json :=
  .object [("exception", .string h.exception), ("begin", .int h.start), ("end", .int h.stop),
    ("handler", .int h.entry)]

def decoder : Decoder Handler :=
  Decoder.record ["exception", "begin", "end", "handler"] fun
    | room, [e, b, s, h] => do
      return ⟨← Decoder.string.required room e, ← targetDecoder.required room b,
        ← targetDecoder.required room s, ← targetDecoder.required room h⟩
    | _, _ => none

end Handler

namespace Body

def toJson (b : Body) : Json :=
  .object [("locals", .array (b.declared.map Variable.toJson)),
    ("instructions", .array (b.code.map Instruction.toJson)),
    ("traps", .array (b.handlers.map Handler.toJson))]

def decoder : Decoder Body :=
  Decoder.record ["locals", "instructions", "traps"] fun
    | room, [vs, is, hs] => do
      return ⟨← Variable.decoder.list.withDefault [] room vs,
        ← Instruction.decoder.list.withDefault [] room is,
        ← Handler.decoder.list.withDefault [] room hs⟩
    | _, _ => none

end Body

end Standin
