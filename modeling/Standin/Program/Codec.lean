import Standin.Body.Codec
import Standin.Program

/-!
# Programs as JSON
-/

namespace Standin

namespace FieldDecl

def toJson (f : FieldDecl) : Json :=
  .object [("name", .string f.name), ("ty", f.type.toJson), ("is_static", .bool f.isStatic)]

def decoder : Decoder FieldDecl :=
  Decoder.record ["name", "ty", "is_static"] fun
    | room, [n, t, s] => do
      return ⟨← Decoder.string.required room n, ← ValueType.decoder.required room t,
        ← Decoder.bool.withDefault false room s⟩
    | _, _ => none

end FieldDecl

namespace MethodDecl

/-- The body is left out when there is none. -/
def toJson (m : MethodDecl) : Json :=
  .object (
    [("name", .string m.name), ("params", .array (m.params.map ValueType.toJson)),
      ("return_type", m.result.toJson), ("is_static", .bool m.isStatic),
      ("is_abstract", .bool m.isAbstract), ("is_native", .bool m.isNative)] ++
    m.body.toList.map fun b => ("body", b.toJson))

def decoder : Decoder MethodDecl :=
  Decoder.record
    ["name", "params", "return_type", "is_static", "is_abstract", "is_native", "body"] fun
    | room, [n, ps, r, s, a, nat, b] => do
      return ⟨← Decoder.string.required room n, ← ValueType.decoder.list.withDefault [] room ps,
        ← ResultType.decoder.required room r, ← Decoder.bool.withDefault false room s,
        ← Decoder.bool.withDefault false room a, ← Decoder.bool.withDefault false room nat,
        ← Body.decoder.optional.withDefault none room b⟩
    | _, _ => none

end MethodDecl

namespace ClassDecl

/-- The superclass is left out when there is none. -/
def toJson (c : ClassDecl) : Json :=
  .object (
    [("name", .string c.name)] ++
    c.superclass.toList.map (fun s => ("superclass", .string s)) ++
    [("interfaces", .array (c.interfaces.map .string)), ("is_interface", .bool c.isInterface),
      ("is_application", .bool c.isApplication),
      ("fields", .array (c.fields.map FieldDecl.toJson)),
      ("methods", .array (c.methods.map MethodDecl.toJson))])

def decoder : Decoder ClassDecl :=
  Decoder.record
    ["name", "superclass", "interfaces", "is_interface", "is_application", "fields", "methods"] fun
    | room, [n, s, is, i, a, fs, ms] => do
      return ⟨← Decoder.string.required room n,
        ← Decoder.string.optional.withDefault none room s,
        ← Decoder.string.list.withDefault [] room is, ← Decoder.bool.withDefault false room i,
        ← Decoder.bool.withDefault false room a,
        ← FieldDecl.decoder.list.withDefault [] room fs,
        ← MethodDecl.decoder.list.withDefault [] room ms⟩
    | _, _ => none

end ClassDecl

namespace Program

def toJson (p : Program) : Json :=
  .object [("classes", .array (p.classes.map ClassDecl.toJson))]

def decoder : Decoder Program :=
  Decoder.record ["classes"] fun
    | room, [cs] => (ClassDecl.decoder.list.withDefault [] room cs).map ofClasses
    | _, _ => none

end Program

end Standin
