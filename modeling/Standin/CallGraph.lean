import Standin.Distinct
import Standin.MethodRef

/-!
# Call graphs

Methods and the calls between them, both in the order in which they were added. The ends of every
edge are nodes.
-/

namespace Standin

structure CallGraph where
  nodes : List MethodRef
  edges : List (MethodRef × MethodRef)
  closed : ∀ e ∈ edges, e.1 ∈ nodes ∧ e.2 ∈ nodes

namespace CallGraph

def empty : CallGraph := ⟨[], [], by simp⟩

def addNode (g : CallGraph) (m : MethodRef) : CallGraph :=
  ⟨addNew g.nodes m, g.edges, fun e he =>
    ⟨mem_addNew.2 (.inl (g.closed e he).1), mem_addNew.2 (.inl (g.closed e he).2)⟩⟩

/-- Adds an edge, and its ends where they are no nodes yet. -/
def addEdge (g : CallGraph) (caller callee : MethodRef) : CallGraph :=
  ⟨addNew (addNew g.nodes caller) callee, addNew g.edges (caller, callee), fun e he => by
    rcases mem_addNew.1 he with h | rfl
    · exact ⟨mem_addNew.2 (.inl (mem_addNew.2 (.inl (g.closed e h).1))),
        mem_addNew.2 (.inl (mem_addNew.2 (.inl (g.closed e h).2)))⟩
    · exact ⟨mem_addNew.2 (.inl (mem_addNew.2 (.inr rfl))), mem_addNew.2 (.inr rfl)⟩⟩

/-- The number of edges. -/
def size (g : CallGraph) : Nat :=
  g.edges.length

def callees (g : CallGraph) (caller : MethodRef) : List MethodRef :=
  (g.edges.filter fun e => e.1 = caller).map Prod.snd

/-- Adds edges from one method to several. -/
def addEdges (g : CallGraph) (caller : MethodRef) (callees : List MethodRef) : CallGraph :=
  callees.foldl (fun g callee => g.addEdge caller callee) g

end CallGraph

end Standin
