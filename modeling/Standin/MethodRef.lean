import Standin.Text.Split
import Standin.ValueType

/-!
# References to methods and fields

A method is named by its class, its name, its parameter types and its result type; a field by its
class, its name and its type.
-/

namespace Standin

structure MethodRef where
  className : String
  name : String
  params : List ValueType
  result : ResultType
deriving DecidableEq, Repr

/-- The name of every constructor. -/
def constructorName : String := "<init>"

/-- The name of every static initializer. -/
def staticInitializerName : String := "<clinit>"

namespace MethodRef

def isConstructor (m : MethodRef) : Bool :=
  m.name = constructorName

def isStaticInitializer (m : MethodRef) : Bool :=
  m.name = staticInitializerName

/-- The result, name and parameters, without the class. -/
def subSignature (m : MethodRef) : String :=
  m.result.text ++ " " ++ m.name ++ "(" ++ Text.joined "," (m.params.map ValueType.text) ++ ")"

/-- The signature between angle brackets. -/
def text (m : MethodRef) : String :=
  "<" ++ m.className ++ ": " ++ m.subSignature ++ ">"

end MethodRef

structure FieldRef where
  className : String
  name : String
  type : ValueType
deriving DecidableEq, Repr

def FieldRef.text (f : FieldRef) : String :=
  "<" ++ f.className ++ ": " ++ f.type.text ++ " " ++ f.name ++ ">"

end Standin
