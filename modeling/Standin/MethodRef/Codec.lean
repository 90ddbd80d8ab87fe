import Standin.MethodRef
import Standin.ValueType.Codec

/-!
# References as JSON
-/

namespace Standin

namespace MethodRef

def toJson (m : MethodRef) : Json :=
  .object [("class", .string m.className), ("name", .string m.name),
    ("params", .array (m.params.map ValueType.toJson)), ("return_type", m.result.toJson)]

def decoder : Decoder MethodRef :=
  Decoder.record ["class", "name", "params", "return_type"] fun
    | room, [c, n, ps, r] => do
      return ⟨← Decoder.string.required room c, ← Decoder.string.required room n,
        ← ValueType.decoder.list.withDefault [] room ps, ← ResultType.decoder.required room r⟩
    | _, _ => none

end MethodRef

namespace FieldRef

def toJson (f : FieldRef) : Json :=
  .object [("class", .string f.className), ("name", .string f.name), ("ty", f.type.toJson)]

def decoder : Decoder FieldRef :=
  Decoder.record ["class", "name", "ty"] fun
    | room, [c, n, t] => do
      return ⟨← Decoder.string.required room c, ← Decoder.string.required room n,
        ← ValueType.decoder.required room t⟩
    | _, _ => none

end FieldRef

end Standin
