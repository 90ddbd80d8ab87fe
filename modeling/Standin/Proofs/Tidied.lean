import Standin.Proofs.CallEdges
import Standin.Proofs.Independence
import Standin.Proofs.Renumbering

/-!
# Tidying goes unnoticed

A scan asks for the types of variables, but not for their numbers, and passes over targets and
instructions that do nothing. So a body has the effects that it has after tidying, or the same
variable stands in the way of both scans (`SameMethod.effects_tidy`). If bodies of a program are
tidied, whichever they are, its call graphs and the stand-ins for its methods stay the same
(`tidy_unnoticed`).
-/

namespace Standin

theorem Expr.isArrayElement_mapVars (σ : VarId → VarId) (e : Expr) :
    (e.mapVars σ).isArrayElement = e.isArrayElement := by
  cases e <;> rfl

theorem Place.isArrayElement_mapVars (σ : VarId → VarId) (d : Place) :
    (d.mapVars σ).isArrayElement = d.isArrayElement := by
  cases d <;> rfl

namespace Body

theorem mentioned_dropNops (b : Body) : mentioned b.dropNops.code = mentioned b.code := by
  ext x
  rw [mem_mentioned, mem_mentioned, b.flatMap_vars_dropNops]

theorem map_exception_tidy (b : Body) :
    b.tidy.handlers.map Handler.exception = b.handlers.map Handler.exception := by
  have hdrop : b.tidy.handlers = b.dropNops.handlers := rfl
  rw [hdrop]
  unfold dropNops
  simp only
  split
  · rfl
  · rw [List.map_map]
    rfl

theorem map_target_tidy (b : Body) :
    b.tidy.invocations.map Invocation.target = b.invocations.map Invocation.target := by
  rw [invocations_tidy, List.map_map]
  rfl

end Body

/-! ## Scanning a renamed body -/

namespace Subject

/-- As far as a scan can tell, the two are the same method, with different bodies perhaps. -/
structure SameMethod (s s' : Subject) : Prop where
  ref : s'.ref = s.ref
  superclass : s'.owner.superclass = s.owner.superclass
  isConstructor : s'.method.isConstructor = s.method.isConstructor

variable {s s' : Subject} {σ : VarId → VarId}

theorem call_mapVars {i : Invocation} (hx : ∀ x ∈ i.vars, s'.typeOf (σ x) = s.typeOf x) :
    s'.call (i.mapVars σ) = s.call i := by
  rcases i with ⟨dispatch, callee, _ | x, args⟩
  · rfl
  · have hx := hx x (List.mem_append_left _ List.mem_cons_self)
    simp only [call, Invocation.mapVars, Option.map_some, hx]

theorem assignEffect?_mapVars (seen : ArrayAccess) (dest : Place) {value : Expr}
    (hx : ∀ x ∈ value.vars, s'.typeOf (σ x) = s.typeOf x) :
    s'.assignEffect? seen (dest.mapVars σ) (value.mapVars σ) = s.assignEffect? seen dest value := by
  have hdest := dest.isArrayElement_mapVars σ
  have hvalue := value.isArrayElement_mapVars σ
  unfold assignEffect?
  rw [hdest, hvalue]
  cases value with
  | invoke i => simp only [Expr.mapVars, call_mapVars hx]
  | _ => rfl

namespace SameMethod

variable (h : s.SameMethod s')
include h

theorem isSuperConstructorCall (i : Invocation) :
    s'.isSuperConstructorCall (i.mapVars σ) = s.isSuperConstructorCall i := by
  simp only [Subject.isSuperConstructorCall, h.superclass, h.isConstructor]
  rfl

theorem isObjectCreation (i : Invocation) :
    s'.isObjectCreation (i.mapVars σ) = s.isObjectCreation i := by
  simp only [Subject.isObjectCreation, h.isSuperConstructorCall]
  rfl

theorem effect? (seen : ArrayAccess) {i : Instruction}
    (hx : ∀ x ∈ i.vars, s'.typeOf (σ x) = s.typeOf x) :
    s'.effect? seen (i.mapVars σ) = s.effect? seen i := by
  cases i with
  | assign dest value =>
    exact assignEffect?_mapVars seen dest fun x hvar => hx x (List.mem_append_right _ hvar)
  | invoke i =>
    simp only [Instruction.mapVars, Subject.effect?, call_mapVars hx, h.isObjectCreation,
      h.isSuperConstructorCall]
    rfl
  | throw v =>
    cases v with
    | var x => simp only [Instruction.mapVars, Operand.mapVars, Subject.effect?,
        hx x List.mem_cons_self]
    | const c => rfl
  | _ => rfl

theorem scan {code : List Instruction}
    (hx : ∀ x ∈ mentioned code, s'.typeOf (σ x) = s.typeOf x) (e : Effects) :
    (code.map (Instruction.mapVars σ)).foldlM s'.step e = code.foldlM s.step e := by
  induction code generalizing e with
  | nil => rfl
  | cons i code ih =>
    have hstep : s'.step e (i.mapVars σ) = s.step e i := by
      unfold step
      rw [h.effect? e.access fun x hi => hx x ⟨i, List.mem_cons_self, hi⟩]
    rw [List.map_cons, List.foldlM_cons, List.foldlM_cons, hstep]
    refine congrArg _ (funext fun e => ih (fun x ⟨j, hj, hvar⟩ => hx x ?_) e)
    exact ⟨j, List.mem_cons_of_mem _ hj, hvar⟩

end SameMethod

/-! ## Scanning a tidied body -/

theorem step_nop (e : Effects) : s.step e .nop = .ok e :=
  rfl

theorem step_mapTarget (g : Nat → Nat) (e : Effects) (i : Instruction) :
    s.step e (i.mapTarget g) = s.step e i := by
  cases i <;> rfl

theorem scan_survivors (s : Subject) : ∀ (code : List Instruction) (e : Effects),
    (survivors code).foldlM s.step e = code.foldlM s.step e
  | [], _ => rfl
  | [_], _ => rfl
  | i :: j :: rest, e => by
    rw [survivors]
    split
    · next hi =>
      obtain rfl : i = .nop := by cases i <;> simp_all [Instruction.isNop]
      rw [scan_survivors s (j :: rest), List.foldlM_cons (a := Instruction.nop), step_nop]
      rfl
    · rw [List.foldlM_cons, List.foldlM_cons]
      exact congrArg _ (funext fun e => scan_survivors s (j :: rest) e)

theorem scan_dropNops (s : Subject) (b : Body) (e : Effects) :
    b.dropNops.code.foldlM s.step e = b.code.foldlM s.step e := by
  unfold Body.dropNops
  simp only
  split
  · rfl
  · rw [List.foldlM_map, ← scan_survivors]
    simp only [step_mapTarget]

/-- A variable that is not declared keeps its number, and so it is missed by the same name. -/
theorem SameMethod.typeOf_tidy (h : s.SameMethod s') (hb : s'.body = s.body.tidy) {x : VarId}
    (hx : x ∈ mentioned s.body.code) : s'.typeOf (s.body.renumbering x) = s.typeOf x := by
  have htype : s'.body.typeOf? (s.body.renumbering x) = s.body.typeOf? x := by
    have hrenames := s.body.dropNops.renames_renumber.types x (s.body.mentioned_dropNops ▸ hx)
    rwa [Body.renumbering_dropNops, Body.typeOf?_dropNops, ← Body.tidy, ← hb] at hrenames
  unfold typeOf
  rw [htype, h.ref]
  rcases ht : s.body.typeOf? x with _ | t
  · rw [Body.renumbering_of_le (Body.typeOf?_eq_none.1 ht)]
  · rfl

theorem SameMethod.effects_tidy (h : s.SameMethod s') (hb : s'.body = s.body.tidy) :
    s'.effects = s.effects := by
  have hcode : s'.body.code =
      s.body.dropNops.code.map (Instruction.mapVars s.body.renumbering) := by
    rw [hb, Body.tidy, Body.code_renumber, Body.renumbering_dropNops]
  unfold effects
  rw [hcode, hb, Body.map_exception_tidy, h.scan, scan_dropNops]
  intro x hx
  exact h.typeOf_tidy hb (s.body.mentioned_dropNops ▸ hx)

end Subject

/-! ## Programs with tidied bodies -/

/-- The method with its body tidied. -/
def MethodDecl.tidy (m : MethodDecl) : MethodDecl :=
  { m with body := m.body.map Body.tidy }

namespace ClassDecl

/-- The class with the bodies tidied of the methods at the chosen positions. -/
def tidyWhere (chosen : Nat → Bool) (c : ClassDecl) : ClassDecl :=
  { c with methods := c.methods.mapIdx fun j m => if chosen j then m.tidy else m }

theorem skeleton_tidyWhere (chosen : Nat → Bool) (c : ClassDecl) :
    (c.tidyWhere chosen).skeleton = c.skeleton := by
  have hmethods : (c.tidyWhere chosen).methods.map MethodDecl.signature =
      c.methods.map MethodDecl.signature := by
    refine List.ext_getElem? fun j => ?_
    rw [tidyWhere, List.getElem?_map, List.getElem?_mapIdx, List.getElem?_map]
    rcases c.methods[j]? with _ | m
    · rfl
    · cases chosen j <;> rfl
  unfold skeleton
  rw [hmethods]
  rfl

/-- The method that a reference means is tidied or stays as it is. -/
theorem method?_tidyWhere (chosen : Nat → Bool) (c : ClassDecl) (r : MethodRef) :
    ∃ t : Bool, (c.tidyWhere chosen).method? r =
      (c.method? r).map fun m => if t then m.tidy else m := by
  have hidx : (c.tidyWhere chosen).methods.findIdx? (fun m => m.answers r) =
      c.methods.findIdx? fun m => m.answers r :=
    findIdx?_of_skeleton (skeleton_tidyWhere chosen c) fun _ => rfl
  unfold method?
  rw [List.find?_eq_bind_findIdx?_getElem?, List.find?_eq_bind_findIdx?_getElem?, hidx]
  rcases hj : c.methods.findIdx? (fun m => m.answers r) with _ | j
  · exact ⟨false, by simp [hj]⟩
  · exact ⟨chosen j, by simp [hj, tidyWhere]⟩

end ClassDecl

namespace Program

/-- The program with the bodies tidied of the methods that are chosen by their class and their
position in it. -/
def tidyWhere (chosen : String → Nat → Bool) (p : Program) : Program :=
  ⟨p.classes.map fun c => c.tidyWhere (chosen c.name), by
    rw [List.map_map]
    exact p.distinct⟩

variable (chosen : String → Nat → Bool) (p : Program)

theorem skeleton_tidyWhere : (p.tidyWhere chosen).skeleton = p.skeleton := by
  refine eq_of_classes ?_
  simp only [skeleton, tidyWhere, List.map_map]
  exact List.map_congr_left fun c _ => c.skeleton_tidyWhere (chosen c.name)

end Program

/-- A fold that does not see how items are changed in their places. -/
theorem foldl_mapIdx {α β γ : Type} {f : Nat → α → β} {op : γ → β → γ} {op' : γ → α → γ}
    (h : ∀ x j a, op x (f j a) = op' x a) (as : List α) (x : γ) :
    (as.mapIdx f).foldl op x = as.foldl op' x := by
  induction as generalizing f x with
  | nil => rfl
  | cons a as ih => rw [List.mapIdx_cons, List.foldl_cons, List.foldl_cons, h, ih fun x j => h x _]

namespace CallGraph

variable (chosen : String → Nat → Bool) (p : Program) (r : Resolution)

/-- The calls of a tidied body name the same methods in the same order. -/
theorem addMethod_tidy (ix : p.Index) (c : ClassDecl) (g : CallGraph) (m : MethodDecl) :
    addMethod ix r c g m.tidy = addMethod ix r c g m := by
  have hcalls : m.tidy.body.elim [] Body.invocations =
      (m.body.elim [] Body.invocations).map
        (Invocation.mapVars (m.body.elim id Body.renumbering)) := by
    unfold MethodDecl.tidy
    rcases m.body with _ | b
    · rfl
    · exact b.invocations_tidy
  unfold addMethod
  simp only [hcalls, List.foldl_map]
  rfl

theorem addMethod_tidyWhere (c : ClassDecl) (g : CallGraph) (m : MethodDecl) :
    addMethod (p.tidyWhere chosen).index r (c.tidyWhere (chosen c.name)) g m =
      addMethod p.index r c g m := by
  have htargets : ∀ i, r.targets (p.tidyWhere chosen).index i = r.targets p.index i :=
    fun i => targets_of_skeleton rfl (fun c => c.skeleton_tidyWhere (chosen c.name)) r rfl
  unfold addMethod
  simp only [htargets]
  rfl

theorem ofProgram_tidyWhere : ofProgram r (p.tidyWhere chosen) = ofProgram r p := by
  have hclass : ∀ (g : CallGraph) (c : ClassDecl),
      ((c.tidyWhere (chosen c.name)).methods.filter MethodDecl.isConcrete).foldl
          (addMethod (p.tidyWhere chosen).index r (c.tidyWhere (chosen c.name))) g =
        (c.methods.filter MethodDecl.isConcrete).foldl (addMethod p.index r c) g := by
    intro g c
    rw [List.foldl_filter, List.foldl_filter]
    refine foldl_mapIdx (fun g j m => ?_) c.methods g
    simp only [addMethod_tidyWhere]
    cases chosen c.name j with
    | false => rfl
    | true =>
      have hconcrete : m.tidy.isConcrete = m.isConcrete := rfl
      simp only [if_true, hconcrete, addMethod_tidy]
  simp only [ofProgram]
  rw [show (p.tidyWhere chosen).classes = p.classes.map _ from rfl, List.foldl_map]
  simp only [hclass]

end CallGraph

namespace Options

variable (chosen : String → Nat → Bool) (p : Program) (m : MethodRef)

theorem subject_tidyWhere :
    ∃ t : Bool, subject (p.tidyWhere chosen) m = (subject p m).map fun s =>
      ⟨s.owner.tidyWhere (chosen s.owner.name), if t then s.method.tidy else s.method,
        if t then s.body.tidy else s.body⟩ := by
  unfold subject Program.lookup
  rw [Program.class?_of_map (p := p) (f := fun c => c.tidyWhere (chosen c.name)) rfl fun _ => rfl]
  rcases p.class? m.className with _ | c
  · exact ⟨false, rfl⟩
  · obtain ⟨t, ht⟩ := c.method?_tidyWhere (chosen c.name) m
    refine ⟨t, ?_⟩
    simp only [Option.map_some, ht]
    rcases c.method? m with _ | d
    · rfl
    · cases t <;> rcases hb : d.body with _ | b <;>
        simp [MethodDecl.tidy, hb, Except.map]

/-- What is written for a method does not depend on the body that it had. -/
theorem write_tidy (o : Options) (s : Subject) (e : Effects) :
    o.write p ⟨s.owner, s.method.tidy, s.body.tidy⟩ e = o.write p s e :=
  rfl

theorem standIn_tidyWhere (o : Options) : o.standIn (p.tidyWhere chosen) m = o.standIn p m := by
  obtain ⟨t, ht⟩ := subject_tidyWhere chosen p m
  unfold standIn
  rw [ht]
  rcases subject p m with err | s
  · rfl
  have howner : ∀ d b e, o.write (p.tidyWhere chosen)
      ⟨s.owner.tidyWhere (chosen s.owner.name), d, b⟩ e = o.write p ⟨s.owner, d, b⟩ e := by
    intro d b e
    rw [← write_skeleton, ← write_skeleton o p, p.skeleton_tidyWhere, Subject.skeleton,
      Subject.skeleton, ClassDecl.skeleton_tidyWhere]
  cases t with
  | false =>
    have heffects : (⟨s.owner.tidyWhere (chosen s.owner.name), s.method,
        s.body⟩ : Subject).effects = s.effects := by
      rw [← Subject.effects_skeleton, Subject.skeleton, ClassDecl.skeleton_tidyWhere]
      exact s.effects_skeleton
    simp only [Except.map, Bool.false_eq_true, if_false, heffects, howner]
  | true =>
    have heffects : (⟨s.owner.tidyWhere (chosen s.owner.name), s.method.tidy,
        s.body.tidy⟩ : Subject).effects = s.effects :=
      Subject.SameMethod.effects_tidy ⟨rfl, rfl, rfl⟩ rfl
    simp only [Except.map, if_true, heffects, howner, write_tidy]

end Options

/-- Tidying a body changes neither its effects nor which calls it makes. Whichever bodies of a
program are tidied, its call graphs and the stand-ins for its methods stay the same. -/
theorem tidy_unnoticed :
    (∀ (c : ClassDecl) (m : MethodDecl) (b : Body),
      (⟨c, m, b.tidy⟩ : Subject).effects = (⟨c, m, b⟩ : Subject).effects ∧
        b.tidy.invocations.map Invocation.target = b.invocations.map Invocation.target) ∧
    ∀ (p : Program) (chosen : String → Nat → Bool),
      (∀ r, CallGraph.ofProgram r (p.tidyWhere chosen) = .ofProgram r p) ∧
        ∀ (o : Options) (m : MethodRef), o.standIn (p.tidyWhere chosen) m = o.standIn p m := by
  refine ⟨fun c m b => ⟨?_, b.map_target_tidy⟩, fun p chosen => ⟨fun r => ?_, fun o m => ?_⟩⟩
  · exact Subject.SameMethod.effects_tidy ⟨rfl, rfl, rfl⟩ rfl
  · exact CallGraph.ofProgram_tidyWhere chosen p r
  · exact o.standIn_tidyWhere chosen p m

end Standin
