import Std.Data.HashSet
import Standin.Distinct
import Standin.Program.Index

/-!
# The class hierarchy

Whether a class is below a name (`Program.Index.isSubtype`), and the method that an object of a
class runs for a call (`Program.Index.resolve?`). A hierarchy may name classes that are not declared
and may run in circles. Both searches therefore keep the names of the classes that they have been
at, and they end because fewer classes of the program are left each time
(`length_unseen_insert_lt`).
-/

namespace Standin

/-- The names right above a class. -/
def ClassDecl.parents (c : ClassDecl) : List String :=
  c.superclass.toList ++ c.interfaces

namespace Program

variable {p : Program}

/-- The classes of a program whose names are not in `seen`. -/
def unseen (p : Program) (seen : Std.HashSet String) : List ClassDecl :=
  p.classes.filter fun c => c.name ∉ seen

theorem length_unseen_insert_lt {seen : Std.HashSet String} {c : p.Class} (h : c.1.name ∉ seen) :
    (p.unseen (seen.insert c.1.name)).length < (p.unseen seen).length := by
  have hfilter : p.unseen (seen.insert c.1.name) =
      (p.unseen seen).filter fun d => d.name ≠ c.1.name := by
    unfold unseen
    rw [List.filter_filter]
    refine List.filter_congr fun d _ => ?_
    rw [← Bool.decide_and, decide_eq_decide, Std.HashSet.mem_insert, beq_iff_eq, not_or, ne_comm]
  rw [hfilter, List.length_filter_lt_length_iff_exists]
  exact ⟨c.1, List.mem_filter.2 ⟨c.2, by simpa using h⟩, by simp⟩

/-- The implementation that a class itself has for a call on an object. -/
def implementation? (c : ClassDecl) (callee : MethodRef) : Option MethodRef :=
  match c.methodNamed? callee.name callee.params with
  | some m => if m.isConcrete && !m.isStatic then some (m.ref c.name) else none
  | none => none

namespace Index

/-- Whether the name `ancestor` can be reached from one of the classes `pending`, of which the last
one added comes first. The classes whose names are in `seen` are not looked at again. -/
def climbsTo (ix : p.Index) (ancestor : String) (pending : List p.Class)
    (seen : Std.HashSet String) : Bool :=
  match pending with
  | [] => false
  | c :: pending =>
    if c.1.name = ancestor then true
    else if c.1.name ∈ seen then ix.climbsTo ancestor pending seen
    else if ancestor ∈ c.1.parents then true
    else
      let above := c.1.parents.filterMap ix.class?
      ix.climbsTo ancestor (above.reverse ++ pending) (seen.insert c.1.name)
termination_by ((p.unseen seen).length, pending.length)
decreasing_by
  · exact .right _ (Nat.lt_succ_self _)
  · next h _ => exact .left _ _ (length_unseen_insert_lt h)

/-- Whether objects of class `c` are also objects of the class `ancestor`. -/
def isSubtype (ix : p.Index) (c : p.Class) (ancestor : String) : Bool :=
  ix.climbsTo ancestor [c] ∅

/-- The first implementation of `callee` on the way up from class `c`, which ends where it comes to
a class whose name is in `seen`. -/
def resolveFrom (ix : p.Index) (callee : MethodRef) (c : p.Class) (seen : Std.HashSet String) :
    Option MethodRef :=
  if c.1.name ∈ seen then none
  else
    match implementation? c.1 callee with
    | some t => some t
    | none =>
      match ix.superclass? c with
      | some d => ix.resolveFrom callee d (seen.insert c.1.name)
      | none => none
termination_by (p.unseen seen).length
decreasing_by next h => exact length_unseen_insert_lt h

/-- The method that an object of class `c` runs for a call of `callee`. -/
def resolve? (ix : p.Index) (c : p.Class) (callee : MethodRef) : Option MethodRef :=
  ix.resolveFrom callee c ∅

/-- The methods that a call of `callee` can run, one for each class that the receiver can have; the
callee itself if no class has one. -/
def dispatch (ix : p.Index) (callee : MethodRef) : List MethodRef :=
  let receivers := p.classes.attach.filter fun c =>
    !c.1.isInterface && ix.isSubtype c callee.className
  match addAllNew [] (receivers.filterMap fun c => ix.resolve? c callee) with
  | [] => [callee]
  | targets => targets

end Index

end Program

end Standin
