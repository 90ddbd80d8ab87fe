import Standin.CallGraph
import Standin.CallGraph.Hierarchy

/-!
# Call graphs of programs

Each implemented method is a node, and each call in its body an edge or more: to the method that the
call names (`Resolution.direct`), or to all that it can run in the class hierarchy
(`Resolution.hierarchy`).
-/

namespace Standin

/-- How the targets of a call are found. -/
inductive Resolution
  | direct
  | hierarchy
deriving DecidableEq, Repr

namespace Resolution

/-- The targets of a call. Only virtual and interface calls look at the receiver's class. -/
def targets (r : Resolution) {p : Program} (ix : p.Index) (i : Invocation) : List MethodRef :=
  match r, i.dispatch with
  | hierarchy, .virtual => ix.dispatch i.callee
  | hierarchy, .interface => ix.dispatch i.callee
  | _, _ => [i.callee]

end Resolution

namespace CallGraph

/-- Adds an implemented method of a class with its calls. -/
def addMethod {p : Program} (ix : p.Index) (r : Resolution) (c : ClassDecl) (g : CallGraph)
    (m : MethodDecl) : CallGraph :=
  let caller := m.ref c.name
  let calls := m.body.elim [] Body.invocations
  calls.foldl (fun g i => g.addEdges caller (r.targets ix i)) (g.addNode caller)

/-- The call graph of a program. -/
def ofProgram (r : Resolution) (p : Program) : CallGraph :=
  let ix := p.index
  p.classes.foldl
    (fun g c => (c.methods.filter MethodDecl.isConcrete).foldl (addMethod ix r c) g) empty

end CallGraph

end Standin
