import Standin.Proofs.Plan

/-!
# How a stand-in ends

A stand-in may throw an object of each type that the body throws, in order, and then returns as the
method does (`Drafted.exits`). What is thrown or returned is an object of the place, or the constant
of its primitive type.
-/

namespace Standin

open Draft

namespace Step

/-- The types of which a step throws an object. -/
def throws : Step → List ValueType
  | mayThrow t => [t]
  | _ => []

/-- The types of which a step returns a value. -/
def returns : Step → List ResultType
  | ret t => [t]
  | _ => []

end Step

namespace Draft

/-- The value `v` may be thrown as an object of type `t`. -/
def Throws (d : Draft) (t : ValueType) (v : Operand) : Prop :=
  ∃ x, v = .var x ∧ d.Offers t x

/-- A value may be returned where a result of that type is due. -/
def Returns (d : Draft) : ResultType → Option Operand → Prop
  | .void, v => v = none
  | .value t, v => ∃ w, v = some w ∧ d.Supplies t w

/-- Code that throws objects of some types and returns values of others, and leaves the method
nowhere else. -/
structure Leaves (d : Draft) (code : List Instruction) (throws : List ValueType)
    (returns : List ResultType) : Prop where
  thrown : List.Forall₂ d.Throws throws (code.filterMap Instruction.thrown?)
  returned : List.Forall₂ d.Returns returns (code.filterMap Instruction.returned?)

namespace Leaves

variable {a : Abstraction} {d : Draft}

theorem append {code code' : List Instruction} {throws throws' : List ValueType}
    {returns returns' : List ResultType} (h : d.Leaves code throws returns)
    (h' : d.Leaves code' throws' returns') :
    d.Leaves (code ++ code') (throws ++ throws') (returns ++ returns') := by
  refine ⟨?_, ?_⟩
  · rw [List.filterMap_append]
    exact List.rel_append h.thrown h'.thrown
  · rw [List.filterMap_append]
    exact List.rel_append h.returned h'.returned

theorem inner {code : List Instruction}
    (h : ∀ i ∈ code, i.thrown? = none ∧ i.returned? = none) : d.Leaves code [] [] := by
  refine ⟨?_, ?_⟩
  · rw [List.filterMap_eq_nil_iff.2 fun i hi => (h i hi).1]
    exact .nil
  · rw [List.filterMap_eq_nil_iff.2 fun i hi => (h i hi).2]
    exact .nil

theorem prepared {q : List Instruction} (hq : ∀ i ∈ q, Preparation a d i) :
    d.Leaves q [] [] := by
  refine inner fun i hi => ?_
  cases hq i hi <;> exact ⟨rfl, rfl⟩

theorem kept {x : VarId} {k : Instruction} (hk : d.Keeps a x k) : d.Leaves [k] [] [] := by
  obtain ⟨dest, rfl⟩ := hk.eq_assign
  exact ⟨.nil, .nil⟩

theorem initializerCall (seen : List String) (c : String) (init : Option MethodRef) :
    d.Leaves (initializerCall seen c init) [] [] := by
  refine inner fun i hi => ?_
  unfold Standin.initializerCall at hi
  split at hi
  · cases hi
  · obtain ⟨m, _, rfl⟩ := List.mem_map.1 hi
    exact ⟨rfl, rfl⟩

end Leaves

end Draft

section Blocks

variable {a : Abstraction} {g : FieldRef} {d : Draft} {pos : Nat} {seen : List String}

theorem Block.leaves {s : Step} {b : List Instruction} (hb : Block a g d pos seen s b) :
    d.Leaves b s.throws s.returns := by
  have hinvoke : ∀ i, d.Leaves [.invoke i] [] [] := fun _ => ⟨.nil, .nil⟩
  have hassign : ∀ dest e, d.Leaves [.assign dest e] [] [] := fun _ _ => ⟨.nil, .nil⟩
  cases hb with
  | superCall hq _ => exact (Leaves.prepared hq).append (hinvoke _)
  | keep hk => exact .kept hk
  | @create m c init x q args k _ hq _ hk =>
    have h := ((((hassign (.var x) (.new c)).append (.prepared hq)).append
      (hinvoke ⟨.special, m, some x, args⟩)).append (.initializerCall seen c init)).append
      (.kept hk)
    simpa [Step.throws, Step.returns] using h
  | createArray _ hk => exact (hassign _ _).append (.kept hk)
  | runInitializer => exact .initializerCall _ _ _
  | statement hq _ => exact (Leaves.prepared hq).append (hinvoke _)
  | keptResult hq _ _ _ _ hk =>
    exact (Leaves.prepared hq).append ((hassign _ _).append (.kept hk))
  | droppedResult hq _ _ => exact (Leaves.prepared hq).append (hinvoke _)
  | @mayThrow t q l x y hq hx _ hl =>
    have hload : d.Leaves l [] [] := by
      rcases hl with rfl | rfl
      · exact ⟨.nil, .nil⟩
      · exact hassign _ _
    have hthrow : ∀ n, d.Leaves [.branch (.var y) n, .throw (.var x), .nop] [t] [] :=
      fun _ => ⟨.cons ⟨x, rfl, hx⟩ .nil, .nil⟩
    exact ((Leaves.prepared hq).append hload).append (hthrow _)
  | retVoid => exact ⟨.nil, .cons rfl .nil⟩
  | @retValue t q v hq hv =>
    have hret : d.Leaves [.ret (some v)] [] [.value t] := ⟨.nil, .cons ⟨v, rfl, hv⟩ .nil⟩
    exact (Leaves.prepared hq).append hret

theorem Blocks.leaves {steps : List Step} {code : List Instruction}
    (h : Blocks a g d pos seen steps code) :
    d.Leaves code (steps.flatMap Step.throws) (steps.flatMap Step.returns) := by
  induction h with
  | nil => exact ⟨.nil, .nil⟩
  | cons hb _ ih =>
    rw [List.flatMap_cons, List.flatMap_cons]
    exact hb.leaves.append ih

end Blocks

namespace Subject

theorem inner_of_mem_keeps {y : Step} : ∀ {x : VarId} {ts : List ValueType}, y ∈ keeps x ts →
    y.throws = [] ∧ y.returns = []
  | _, [], h => by cases h
  | x, t :: ts, h => by
    unfold keeps at h
    split at h
    · rcases List.mem_cons.1 h with rfl | h
      · exact ⟨rfl, rfl⟩
      · exact inner_of_mem_keeps h
    · exact inner_of_mem_keeps h

variable (p : Program) (s : Subject) (e : Effects) (r : ReflectiveEffects)
  (supers exceptions : List MethodRef)

/-- The steps before the exits leave the method nowhere. -/
theorem inner_steps : ∀ y ∈ supers.map Step.superCall ++ keeps 0 s.incoming ++
    creations p e r exceptions ++ calls e r, y.throws = [] ∧ y.returns = [] := by
  intro y hy
  simp only [creations, calls, List.mem_append, List.mem_map, List.mem_flatMap] at hy
  rcases hy with ((⟨_, _, rfl⟩ | hy) | (((((⟨_, _, rfl⟩ | ⟨_, _, rfl⟩) | ⟨_, _, rfl⟩) |
    ⟨_, _, rfl⟩) | ⟨_, _, rfl⟩) | ⟨_, _, _, _, rfl⟩)) | (⟨_, _, rfl⟩ | ⟨_, _, rfl⟩)
  case inl.inl.inr => exact inner_of_mem_keeps hy
  all_goals exact ⟨rfl, rfl⟩

theorem throws_steps :
    (s.steps p e r supers exceptions).flatMap Step.throws =
      e.throwables.filter ValueType.isReferenceLike := by
  have hinner := inner_steps p s e r supers exceptions
  unfold steps exits
  rw [List.flatMap_append, List.flatMap_eq_nil_iff.2 fun y hy => (hinner y hy).1]
  simp [List.flatMap_map, Step.throws]

theorem returns_steps :
    (s.steps p e r supers exceptions).flatMap Step.returns = [s.method.result] := by
  have hinner := inner_steps p s e r supers exceptions
  have hthrow : ∀ t ∈ e.throwables.filter ValueType.isReferenceLike,
      (Step.mayThrow t).returns = [] := fun _ _ => rfl
  unfold steps exits
  rw [List.flatMap_append, List.flatMap_eq_nil_iff.2 fun y hy => (hinner y hy).2,
    List.flatMap_append, List.flatMap_map, List.flatMap_eq_nil_iff.2 hthrow]
  rfl

end Subject

theorem Drafted.exits {o : Options} {p : Program} {s : Subject} {e : Effects}
    {supers exceptions : List MethodRef} {d : Draft} {code : List Instruction}
    (h : Drafted o p s e supers exceptions d code) :
    List.Forall₂ d.Throws (e.throwables.filter ValueType.isReferenceLike) d.body.thrown ∧
      List.Forall₂ d.Returns [s.method.result] d.body.returned := by
  have hbind : d.Leaves (Subject.bindings 0 s.arrivals) [] [] := by
    refine .inner fun i hi => ?_
    obtain ⟨x, source, rfl⟩ := Subject.eq_bind_of_mem_bindings hi
    exact ⟨rfl, rfl⟩
  have hcode := hbind.append h.blocks.leaves
  rw [← h.code_eq, Subject.throws_steps, Subject.returns_steps] at hcode
  exact ⟨hcode.thrown, hcode.returned⟩

end Standin
