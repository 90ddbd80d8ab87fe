import Standin.Json.Decoder
import Standin.ValueType

/-!
# Types as JSON
-/

namespace Standin

def Primitive.toJson (p : Primitive) : Json :=
  .string p.keyword

def Primitive.decoder : Decoder Primitive :=
  Decoder.keyword Primitive.ofKeyword?

namespace ValueType

def toJson : ValueType → Json
  | primitive p => .object [("primitive", p.toJson)]
  | reference c => .object [("reference", .string c)]
  | array base n =>
    .object [("array", .object [("base", toJson base), ("dimensions", .int n.toNat)])]

def decoder : Decoder ValueType
  | room + 1, .object [("primitive", j)] => (Primitive.decoder room j).map primitive
  | room + 1, .object [("reference", j)] => (Decoder.string room j).map reference
  | room + 2, .object [("array", j)] =>
    match j.fields? ["base", "dimensions"] with
    | some [some base, some n] => do
      return array (← decoder room base) (← Decoder.uint8 room n)
    | _ => none
  | _, _ => none

end ValueType

namespace ResultType

def toJson : ResultType → Json
  | void => .string "void"
  | value t => .object [("type", t.toJson)]

def decoder : Decoder ResultType :=
  Decoder.orElse
    (Decoder.keyword fun tag => if tag = "void" then some void else none)
    (Decoder.tagged fun tag => if tag = "type" then some (ValueType.decoder.map value) else none)

end ResultType

end Standin
