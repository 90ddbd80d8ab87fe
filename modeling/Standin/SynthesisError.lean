import Standin.Program

/-!
# Why a stand-in cannot be made
-/

namespace Standin

/-- Why no value of a type can be allocated. -/
inductive AllocationFault
  | noDimensions
  | primitive
  | interface
  | notAnArray
deriving DecidableEq, Repr

def AllocationFault.text : AllocationFault → String
  | noDimensions => "array type without dimensions"
  | primitive => "primitive types cannot be allocated"
  | interface => "interfaces cannot be instantiated"
  | notAnArray => "array creation of a non-array type"

inductive SynthesisError
  /-- A call whose target only a bootstrap method knows. -/
  | unsupportedDispatch (callee : MethodRef) (dispatch : Dispatch)
  | unresolvableType (type : ValueType) (fault : AllocationFault)
  | missingBody (method : MethodRef)
  | model (error : ModelError)
deriving DecidableEq, Repr

def SynthesisError.message : SynthesisError → String
  | unsupportedDispatch m d =>
    "call to " ++ m.text ++ " uses " ++ d.keyword ++ ", which has no fixed dispatch kind"
  | unresolvableType t fault =>
    "cannot materialize a value of type " ++ t.text ++ ": " ++ fault.text
  | missingBody m => m.text ++ " has no original body to replace"
  | model e => e.message

end Standin
