import Standin.CallGraph.Build
import Standin.Proofs.Calls
import Standin.Proofs.Replacement
import Standin.Proofs.Scan

/-!
# Stand-ins keep the call graph

What a call can run depends on the signatures of a program and not on its bodies
(`targets_of_skeleton`), and an edge of the call graph comes from a call site
(`mem_edges_ofProgram`). Replacing the library therefore keeps the edges of all calls but those that
a scan passes over, and adds those of the few calls that a stand-in makes on its own
(`callGraph_replaceLibrary`).
-/

namespace Standin

/-! ## Dispatch -/

namespace Program

variable {p p' : Program} {f : ClassDecl → ClassDecl}

theorem implementation?_of_skeleton {c c' : ClassDecl} (h : c'.skeleton = c.skeleton)
    (callee : MethodRef) : implementation? c' callee = implementation? c callee := by
  have hfind := find?_of_skeleton h
    (q := fun m => m.name = callee.name && m.params = callee.params) fun _ => rfl
  unfold implementation? ClassDecl.methodNamed?
  rcases hm : c.methods.find? (fun m => m.name = callee.name && m.params = callee.params) with _ | m
  · rw [hm] at hfind
    simp only [Option.map_none, Option.map_eq_none_iff] at hfind
    rw [hfind, hm]
  · rw [hm] at hfind
    obtain ⟨m', hm', hsig⟩ := Option.map_eq_some_iff.1 hfind
    obtain ⟨hconcrete, hstatic, href⟩ := MethodDecl.of_signature hsig
    rw [hm, hm']
    simp only [hconcrete, hstatic, href, (ClassDecl.of_skeleton h).1]

/-- The class that a class becomes where `f` changes all classes of a program. -/
def Class.along (hp : p'.classes = p.classes.map f) (c : p.Class) : p'.Class :=
  ⟨f c.1, hp ▸ List.mem_map_of_mem c.2⟩

theorem attach_along (hp : p'.classes = p.classes.map f) :
    p'.classes.attach = p.classes.attach.map (Class.along hp) := by
  refine List.map_injective_iff.2 Subtype.val_injective ?_
  calc p'.classes.attach.map Subtype.val
      = (p.classes.attach.map Subtype.val).map f := by simp only [List.attach_map_subtype_val, hp]
    _ = (p.classes.attach.map (Class.along hp)).map Subtype.val := by simp [Class.along]

section Along

variable (hp : p'.classes = p.classes.map f) (hf : ∀ c, (f c).skeleton = c.skeleton)
  (ix : p.Index) (ix' : p'.Index)
include hf

theorem name_along (c : p.Class) : (c.along hp).1.name = c.1.name :=
  (ClassDecl.of_skeleton (hf c.1)).1

theorem class?_along (name : String) :
    ix'.class? name = (ix.class? name).map (Class.along hp) := by
  refine Option.map_injective Subtype.val_injective ?_
  rw [ix'.map_class?, class?_of_map hp (fun c => (ClassDecl.of_skeleton (hf c)).1), ← ix.map_class?,
    Option.map_map, Option.map_map]
  rfl

theorem superclass?_along (c : p.Class) :
    ix'.superclass? (c.along hp) = (ix.superclass? c).map (Class.along hp) := by
  have hs : (c.along hp).1.superclass = c.1.superclass := (ClassDecl.of_skeleton (hf c.1)).2.1
  unfold Index.superclass?
  rw [hs, Option.map_bind]
  exact congrArg c.1.superclass.bind (funext (class?_along hp hf ix ix'))

theorem parents_along (c : p.Class) : (c.along hp).1.parents = c.1.parents := by
  obtain ⟨_, hs, hi, _⟩ := ClassDecl.of_skeleton (hf c.1)
  unfold ClassDecl.parents Class.along
  rw [hs, hi]

theorem climbsTo_along (ancestor : String) (pending : List p.Class) (seen : Std.HashSet String) :
    ix'.climbsTo ancestor (pending.map (Class.along hp)) seen =
      ix.climbsTo ancestor pending seen := by
  fun_induction ix.climbsTo ancestor pending seen with
  | case1 seen => rw [List.map_nil, Index.climbsTo]
  | case2 seen c pending hname =>
    rw [List.map_cons, Index.climbsTo, if_pos ((name_along hp hf c).trans hname)]
  | case3 seen c pending hname hseen ih =>
    rw [List.map_cons, Index.climbsTo, name_along hp hf, if_neg hname, if_pos hseen, ih]
  | case4 seen c pending hname hseen habove =>
    rw [List.map_cons, Index.climbsTo, name_along hp hf, if_neg hname, if_neg hseen,
      parents_along hp hf, if_pos habove]
  | case5 seen c pending hname hseen habove above ih =>
    have hpush : c.1.parents.filterMap ix'.class? = above.map (Class.along hp) := by
      rw [List.map_filterMap]
      exact congrArg c.1.parents.filterMap (funext (class?_along hp hf ix ix'))
    rw [List.map_append, List.map_reverse] at ih
    rw [List.map_cons, Index.climbsTo, name_along hp hf, if_neg hname, if_neg hseen,
      parents_along hp hf, if_neg habove, hpush]
    exact ih

theorem resolveFrom_along (callee : MethodRef) (c : p.Class) (seen : Std.HashSet String) :
    ix'.resolveFrom callee (c.along hp) seen = ix.resolveFrom callee c seen := by
  have himpl : ∀ c : p.Class, implementation? (c.along hp).1 callee = implementation? c.1 callee :=
    fun c => implementation?_of_skeleton (hf c.1) callee
  fun_induction ix.resolveFrom callee c seen with
  | case1 c seen hseen => rw [Index.resolveFrom, name_along hp hf, if_pos hseen]
  | case2 c seen hseen t ht => rw [Index.resolveFrom, name_along hp hf, if_neg hseen, himpl, ht]
  | case3 c seen hseen hnone d hd ih =>
    rw [Index.resolveFrom, name_along hp hf, if_neg hseen, himpl, hnone,
      superclass?_along hp hf ix ix', hd]
    exact ih
  | case4 c seen hseen hnone hd =>
    rw [Index.resolveFrom, name_along hp hf, if_neg hseen, himpl, hnone,
      superclass?_along hp hf ix ix', hd]
    rfl

include hp in
theorem dispatch_of_skeleton (callee : MethodRef) : ix'.dispatch callee = ix.dispatch callee := by
  have hi : ∀ c : p.Class, (c.along hp).1.isInterface = c.1.isInterface :=
    fun c => (ClassDecl.of_skeleton (hf c.1)).2.2.2
  have hs : ∀ c : p.Class, ix'.isSubtype (c.along hp) callee.className =
      ix.isSubtype c callee.className :=
    fun c => climbsTo_along hp hf ix ix' callee.className [c] ∅
  have hr : ∀ c : p.Class, ix'.resolve? (c.along hp) callee = ix.resolve? c callee :=
    fun c => resolveFrom_along hp hf ix ix' callee c ∅
  unfold Index.dispatch
  simp only [attach_along hp, List.filter_map, List.filterMap_map, Function.comp_def, hi, hs, hr]

end Along

end Program

/-- What a call can run depends on signatures alone, and on what the call names. -/
theorem targets_of_skeleton {p p' : Program} {f : ClassDecl → ClassDecl}
    (hp : p'.classes = p.classes.map f) (hf : ∀ c, (f c).skeleton = c.skeleton) (r : Resolution)
    {i i' : Invocation} (hi : i'.target = i.target) :
    r.targets p'.index i' = r.targets p.index i := by
  obtain ⟨hd, hc⟩ := Prod.mk.inj hi
  unfold Resolution.targets
  rw [hd, hc, Program.dispatch_of_skeleton hp hf]

/-! ## Call sites -/

/-- A call in the body of the method at position `index` of a class. -/
structure CallSite where
  owner : ClassDecl
  index : Nat
  method : MethodDecl
  body : Body
  position : Nat
  instruction : Instruction
  call : Invocation

namespace CallSite

/-- The call is made by an implemented method of the program. -/
structure In (x : CallSite) (p : Program) : Prop where
  owner : x.owner ∈ p.classes
  method : x.owner.methods[x.index]? = some x.method
  isConcrete : x.method.isConcrete
  body : x.method.body = some x.body
  instruction : x.body.code[x.position]? = some x.instruction
  call : x.instruction.invocation? = some x.call

/-- The method that makes the call, as a scan sees it. -/
def subject (x : CallSite) : Subject :=
  ⟨x.owner, x.method, x.body⟩

/-- The call gives the call graph an edge. -/
structure Yields (x : CallSite) (r : Resolution) (p : Program) (e : MethodRef × MethodRef) :
    Prop where
  site : x.In p
  caller : e.1 = x.method.ref x.owner.name
  callee : e.2 ∈ r.targets p.index x.call

end CallSite

namespace CallGraph

/-- What is seen of a graph that items are added to one after another. -/
theorem mem_foldl {α β : Type} (view : CallGraph → List β) {add : CallGraph → α → CallGraph}
    {Q : α → β → Prop} (hadd : ∀ g x y, y ∈ view (add g x) ↔ y ∈ view g ∨ Q x y) (xs : List α)
    (g : CallGraph) (y : β) : y ∈ view (xs.foldl add g) ↔ y ∈ view g ∨ ∃ x ∈ xs, Q x y := by
  induction xs generalizing g with
  | nil => simp
  | cons x xs ih =>
    rw [List.foldl_cons, ih, hadd]
    simp [or_assoc]

theorem mem_edges_addEdges (g : CallGraph) (caller : MethodRef) (callees : List MethodRef)
    (e : MethodRef × MethodRef) :
    e ∈ (g.addEdges caller callees).edges ↔ e ∈ g.edges ∨ (e.1 = caller ∧ e.2 ∈ callees) := by
  unfold addEdges
  rw [mem_foldl edges (Q := fun t e => e = (caller, t)) fun g t e => mem_addNew]
  refine or_congr_right ⟨?_, fun ⟨h₁, h₂⟩ => ⟨e.2, h₂, Prod.ext h₁ rfl⟩⟩
  rintro ⟨t, ht, rfl⟩
  exact ⟨rfl, ht⟩

theorem mem_edges_addMethod {p : Program} (ix : p.Index) (r : Resolution) (c : ClassDecl)
    (g : CallGraph) (m : MethodDecl) (e : MethodRef × MethodRef) :
    e ∈ (addMethod ix r c g m).edges ↔ e ∈ g.edges ∨
      ∃ i ∈ m.body.elim [] Body.invocations, e.1 = m.ref c.name ∧ e.2 ∈ r.targets ix i := by
  have hstep := fun g i e => mem_edges_addEdges g (m.ref c.name) (r.targets ix i) e
  exact mem_foldl edges hstep (m.body.elim [] Body.invocations) (g.addNode (m.ref c.name)) e

/-- Every edge comes from a call site, and every call site gives its edges. -/
theorem mem_edges_ofProgram {r : Resolution} {p : Program} {e : MethodRef × MethodRef} :
    e ∈ (ofProgram r p).edges ↔ ∃ x : CallSite, x.Yields r p e := by
  have hclass := fun g (c : ClassDecl) e => mem_foldl edges (mem_edges_addMethod p.index r c)
    (c.methods.filter MethodDecl.isConcrete) g e
  have hedges : e ∈ (ofProgram r p).edges ↔ e ∈ empty.edges ∨ ∃ c ∈ p.classes,
      ∃ m ∈ c.methods.filter MethodDecl.isConcrete, ∃ i ∈ m.body.elim [] Body.invocations,
        e.1 = m.ref c.name ∧ e.2 ∈ r.targets p.index i := by
    rw [← mem_foldl edges hclass]
    rfl
  rw [hedges]
  constructor
  · rintro (h | ⟨c, hc, m, hm, i, hi, h₁, h₂⟩)
    · cases h
    · obtain ⟨hm, hconcrete⟩ := List.mem_filter.1 hm
      obtain ⟨j, hj⟩ := List.mem_iff_getElem?.1 hm
      rcases hb : m.body with _ | b
      · simp [hb] at hi
      · rw [hb] at hi
        obtain ⟨instr, hinstr, hcall⟩ := List.mem_filterMap.1 hi
        obtain ⟨k, hk⟩ := List.mem_iff_getElem?.1 hinstr
        exact ⟨⟨c, j, m, b, k, instr, i⟩, ⟨hc, hj, hconcrete, hb, hk, hcall⟩, h₁, h₂⟩
  · rintro ⟨x, hx, h₁, h₂⟩
    refine .inr ⟨x.owner, hx.owner, x.method, ?_, x.call, ?_, h₁, h₂⟩
    · exact List.mem_filter.2 ⟨List.mem_of_getElem? hx.method, hx.isConcrete⟩
    · rw [hx.body]
      exact List.mem_filterMap.2 ⟨x.instruction, List.mem_of_getElem? hx.instruction, hx.call⟩

end CallGraph

/-! ## The calls of a stand-in -/

/-- How the call of a deed is dispatched, and whom it names. -/
def Deed.target : Deed → Dispatch × MethodRef
  | construct _ m => (.special, m)
  | runInitializer m => (.static, m)
  | call c => c.target

theorem Draft.Performs.target {d : Draft} {deed : Deed} {i : Invocation} (h : d.Performs deed i) :
    i.target = deed.target := by
  cases deed with
  | construct x m =>
    obtain ⟨args, rfl, _⟩ := h
    rfl
  | runInitializer m =>
    have hi : i = ⟨.static, m, none, []⟩ := h
    rw [hi]
    rfl
  | call c =>
    have hi : d.Makes c i := h
    exact Prod.ext hi.dispatch hi.callee

/-- The calls that a stand-in for `s` makes and the body of `s` need not make: those for the
superclass, for handled exceptions, for static initializers and for the effects `r` of the log. -/
inductive Subject.Adds (p : Program) (s : Subject) (r : ReflectiveEffects) :
    Dispatch × MethodRef → Prop
  | superConstructor {c : String} {k : MethodRef} : s.calledSuperclass? = some c →
    p.superConstructor c = .ok k → Adds p s r (.special, k)
  | exception {h : Handler} {k : MethodRef} : h ∈ s.body.handlers →
    p.anyConstructor h.exception = .ok k → Adds p s r (.special, k)
  | initializer {c : String} {k : MethodRef} : p.initializer? c = some k → Adds p s r (.static, k)
  | creation {k : MethodRef} : k ∈ r.objectCreations → Adds p s r (.special, k)
  | call {c : Call} : c ∈ r.calls → Adds p s r c.target

namespace Drafted

variable {o : Options} {p : Program} {s : Subject} {e : Effects}
  {supers exceptions : List MethodRef} {d : Draft} {code : List Instruction}

theorem targets (h : Drafted o p s e supers exceptions d code) :
    d.body.tidy.invocations.map Invocation.target =
      (p.deeds e (.collect p o.log e) supers exceptions (d.body.objects.map Prod.fst)).map
        Deed.target := by
  rw [Body.invocations_tidy, List.map_map]
  exact map_eq_map_of_forall₂ (fun _ _ _ hi => hi.target) h.calls.1

/-- Whom the calls of a stand-in name. -/
theorem mem_targets_iff (h : Drafted o p s e supers exceptions d code) {t : Dispatch × MethodRef} :
    t ∈ d.body.tidy.invocations.map Invocation.target ↔
      (∃ k ∈ supers, t = (.special, k)) ∨
      (∃ k ∈ e.created (.collect p o.log e) exceptions, t = (.special, k)) ∨
      (∃ c ∈ e.initialized (.collect p o.log e) exceptions, ∃ k, p.initializer? c = some k ∧
        t = (.static, k)) ∨
      ∃ c ∈ e.statements ++ e.results ++ (ReflectiveEffects.collect p o.log e).calls,
        t = c.target := by
  rw [h.targets, List.mem_map]
  constructor
  · rintro ⟨deed, hdeed, rfl⟩
    rcases Program.mem_deeds hdeed with ⟨k, hk, rfl⟩ | ⟨k, x, hk, rfl⟩ | ⟨c, hc, k, hk, rfl⟩ |
      ⟨c, hc, rfl⟩
    · exact .inl ⟨k, hk, rfl⟩
    · exact .inr (.inl ⟨k, (List.of_mem_zip hk).1, rfl⟩)
    · exact .inr (.inr (.inl ⟨c, hc, k, hk, rfl⟩))
    · exact .inr (.inr (.inr ⟨c, hc, rfl⟩))
  · rintro (⟨k, hk, rfl⟩ | ⟨k, hk, rfl⟩ | ⟨c, hc, k, hk, rfl⟩ | ⟨c, hc, rfl⟩)
    · refine ⟨.construct 0 k, ?_, rfl⟩
      simp only [Program.deeds, List.mem_append]
      exact .inl (.inl (.inl (List.mem_map_of_mem hk)))
    · obtain ⟨x, hx⟩ := exists_mem_zip h.length_objects hk
      refine ⟨.construct x k, ?_, rfl⟩
      simp only [Program.deeds, List.mem_append]
      exact .inl (.inl (.inr (Program.construct_mem_creationDeeds hx)))
    · exact ⟨.runInitializer k, Program.runInitializer_mem_deeds h.length_objects hc hk, rfl⟩
    · exact ⟨.call c, List.mem_append_right _ (List.mem_map_of_mem hc), rfl⟩

/-- A stand-in names every call that the effects name. -/
theorem mem_targets (h : Drafted o p s e supers exceptions d code) {t : Dispatch × MethodRef}
    (ht : t ∈ e.targets) : t ∈ d.body.tidy.invocations.map Invocation.target := by
  rw [h.mem_targets_iff]
  rcases List.mem_append.1 ht with ht | ht
  · obtain ⟨k, hk, rfl⟩ := List.mem_map.1 ht
    exact .inr (.inl ⟨k, by simp [Effects.created, hk], rfl⟩)
  · obtain ⟨c, hc, rfl⟩ := List.mem_map.1 ht
    exact .inr (.inr (.inr ⟨c, List.mem_append_left _ hc, rfl⟩))

/-- A stand-in names no call but those that the effects name and those that it adds. -/
theorem mem_targets_or_adds (h : Drafted o p s e supers exceptions d code) (he : s.effects = .ok e)
    {t : Dispatch × MethodRef} (ht : t ∈ d.body.tidy.invocations.map Invocation.target) :
    t ∈ e.targets ∨ s.Adds p (.collect p o.log e) t := by
  rcases h.mem_targets_iff.1 ht with ⟨k, hk, rfl⟩ | ⟨k, hk, rfl⟩ | ⟨c, _, k, hk, rfl⟩ |
    ⟨c, hc, rfl⟩
  · obtain ⟨c, hc, hk⟩ := exists_of_mem_forall₂ h.superConstructors hk
    exact .inr (.superConstructor (Option.mem_toList.1 hc) hk)
  · simp only [Effects.created, List.mem_append] at hk
    rcases hk with (hk | hk) | hk
    · exact .inl (List.mem_append_left _ (List.mem_map_of_mem hk))
    · obtain ⟨c, hc, hk⟩ := exists_of_mem_forall₂ h.exceptionConstructors hk
      obtain ⟨e', _, rfl⟩ := Subject.effects_eq_ok he
      rcases mem_addAllNew.1 hc with hc | hc
      · cases hc
      · obtain ⟨handler, hh, rfl⟩ := List.mem_map.1 hc
        exact .inr (.exception hh hk)
    · exact .inr (.creation hk)
  · exact .inr (.initializer hk)
  · rcases List.mem_append.1 hc with hc | hc
    · exact .inl (List.mem_append_right _ (List.mem_map_of_mem hc))
    · exact .inr (.call hc)

end Drafted

/-! ## Edges kept and edges added -/

namespace Program

theorem class?_of_mem {p : Program} {c : ClassDecl} (hc : c ∈ p.classes) :
    p.class? c.name = some c :=
  class?_eq_some.2 ⟨hc, rfl⟩

end Program

/-- The method that has a stand-in in its place is the one that the stand-in was made for. -/
theorem Options.of_standInFor? {o : Options} {p : Program} {refs : List MethodRef} {c : ClassDecl}
    {j : Nat} {m : MethodDecl} {st : StandIn} (hc : c ∈ p.classes) (hm : c.methods[j]? = some m)
    (h : o.standInFor? p refs c j m = some st) :
    ∃ b supers exceptions d code, m.body = some b ∧
      (⟨c, m, b⟩ : Subject).effects = .ok st.effects ∧
      Drafted o p ⟨c, m, b⟩ st.effects supers exceptions d code ∧ st.body = d.body.tidy := by
  obtain ⟨_, hj, hok⟩ := standInFor?_eq_some.1 h
  obtain ⟨hlt, ha, hfirst⟩ := List.findIdx?_eq_some_iff_getElem.1 hj
  have hm' := (List.getElem?_eq_some_iff.1 hm).2
  have hfind : c.method? (m.ref c.name) = some m := by
    refine List.find?_eq_some_iff_getElem.2 ⟨hm' ▸ ha, j, hlt, hm', fun k hk => ?_⟩
    simpa using hfirst k hk
  obtain ⟨s, supers, exceptions, d, code, hs, he, hd, hbody⟩ := standIn_eq_ok hok
  unfold subject Program.lookup at hs
  rw [show (m.ref c.name).className = c.name from rfl, Program.class?_of_mem hc] at hs
  rcases hb : m.body with _ | b
  · simp [hfind, hb] at hs
  · simp only [hfind, hb, Except.ok.injEq] at hs
    subst hs
    exact ⟨b, supers, exceptions, d, code, rfl, he, hd, hbody⟩

namespace CallSite

/-- The call is in a body that has been replaced, and the scan of that body passes over it: it calls
a constructor of the superclass, or counts as the write into an array. -/
def IsDropped (x : CallSite) (o : Options) (p : Program) : Prop :=
  (∃ st, o.standInFor? p p.libraryMethods x.owner x.index x.method = some st) ∧
    ((x.instruction = .invoke x.call ∧ x.subject.isSuperConstructorCall x.call) ∨
      (x.subject.arrayWrite? = some x.position ∧
        ∃ dest, x.instruction = .assign dest (.invoke x.call) ∧ dest.isArrayElement))

/-- The call is in a stand-in that has been put in the place of a body, and is one that the stand-in
makes on its own. -/
def IsAdded (x : CallSite) (o : Options) (p : Program) : Prop :=
  ∃ c m b st, c ∈ p.classes ∧ c.name = x.owner.name ∧ c.methods[x.index]? = some m ∧
    m.body = some b ∧ o.standInFor? p p.libraryMethods c x.index m = some st ∧
    x.body = st.body ∧
    (⟨c, m, b⟩ : Subject).Adds p (.collect p o.log st.effects) x.call.target

theorem In.call_mem {x : CallSite} {p : Program} (hx : x.In p) : x.call ∈ x.body.invocations :=
  List.mem_filterMap.2 ⟨x.instruction, List.mem_of_getElem? hx.instruction, hx.call⟩

theorem exists_in_replaceLibrary {o : Options} {p : Program} {c : ClassDecl} {j : Nat}
    {m : MethodDecl} {b : Body} {i : Invocation} (hc : c ∈ p.classes)
    (hm : c.methods[j]? = some m) (hconcrete : m.isConcrete)
    (hb : ((o.standInFor? p p.libraryMethods c j m).map StandIn.body).or m.body = some b)
    (hi : i ∈ b.invocations) :
    ∃ x : CallSite, x.In (o.replaceLibrary p).program ∧
      x.method.ref x.owner.name = m.ref c.name ∧ x.call = i := by
  obtain ⟨instr, hinstr, hcall⟩ := List.mem_filterMap.1 hi
  obtain ⟨k, hk⟩ := List.mem_iff_getElem?.1 hinstr
  refine ⟨⟨o.rewritten p p.libraryMethods c, j, { m with body := some b }, b, k, instr, i⟩,
    ⟨?_, ?_, hconcrete, rfl, hk, hcall⟩, rfl, rfl⟩
  · rw [Options.classes_replaceLibrary]
    exact List.mem_map_of_mem hc
  · simp [Options.rewritten, hm, hb]

theorem In.of_replaceLibrary {o : Options} {p : Program} {x : CallSite}
    (hx : x.In (o.replaceLibrary p).program) :
    ∃ c m, c ∈ p.classes ∧ c.name = x.owner.name ∧ c.methods[x.index]? = some m ∧
      m.isConcrete ∧ m.ref c.name = x.method.ref x.owner.name ∧
      ((o.standInFor? p p.libraryMethods c x.index m).map StandIn.body).or m.body =
        some x.body := by
  have howner := hx.owner
  rw [Options.classes_replaceLibrary] at howner
  obtain ⟨c, hc, howner⟩ := List.mem_map.1 howner
  have hmethod := hx.method
  rw [← howner] at hmethod
  simp only [Options.rewritten, List.getElem?_mapIdx] at hmethod
  obtain ⟨m, hm, hmethod⟩ := Option.map_eq_some_iff.1 hmethod
  refine ⟨c, m, hc, howner ▸ rfl, hm, ?_, ?_, ?_⟩
  · have := hx.isConcrete
    rwa [← hmethod] at this
  · rw [← hmethod, ← howner]
    rfl
  · have := hx.body
    rwa [← hmethod] at this

variable {o : Options} {p : Program} {r : Resolution} {e : MethodRef × MethodRef} {x : CallSite}

/-- A call keeps its edges if the new body names the same method somewhere. -/
theorem Yields.mem_edges_replaceLibrary (hx : x.Yields r p e) {b : Body}
    (hb : ((o.standInFor? p p.libraryMethods x.owner x.index x.method).map StandIn.body).or
      x.method.body = some b) (ht : x.call.target ∈ b.invocations.map Invocation.target) :
    e ∈ (CallGraph.ofProgram r (o.replaceLibrary p).program).edges := by
  obtain ⟨i, hi, ht⟩ := List.mem_map.1 ht
  obtain ⟨x', hx', href, rfl⟩ :=
    exists_in_replaceLibrary hx.site.owner hx.site.method hx.site.isConcrete hb hi
  refine CallGraph.mem_edges_ofProgram.2 ⟨x', hx', hx.caller.trans href.symm, ?_⟩
  rw [targets_of_skeleton (Options.classes_replaceLibrary o p) (Options.skeleton_rewritten _) r ht]
  exact hx.callee

/-- The edges of a call are old ones if the body that was there names the same method somewhere. -/
theorem Yields.of_replaceLibrary (hx : x.Yields r (o.replaceLibrary p).program e) :
    ∃ c m, c ∈ p.classes ∧ c.name = x.owner.name ∧ c.methods[x.index]? = some m ∧
      ((o.standInFor? p p.libraryMethods c x.index m).map StandIn.body).or m.body =
        some x.body ∧
      ∀ b, m.body = some b → x.call.target ∈ b.invocations.map Invocation.target →
        e ∈ (CallGraph.ofProgram r p).edges := by
  obtain ⟨c, m, hc, hname, hm, hconcrete, href, hb'⟩ := hx.site.of_replaceLibrary
  refine ⟨c, m, hc, hname, hm, hb', fun b hb ht => ?_⟩
  obtain ⟨call, hcall, ht⟩ := List.mem_map.1 ht
  obtain ⟨i, hi, hcall⟩ := List.mem_filterMap.1 hcall
  obtain ⟨k, hk⟩ := List.mem_iff_getElem?.1 hi
  refine CallGraph.mem_edges_ofProgram.2 ⟨⟨c, x.index, m, b, k, i, call⟩,
    ⟨hc, hm, hconcrete, hb, hk, hcall⟩, hx.caller.trans href.symm, ?_⟩
  rw [← targets_of_skeleton (Options.classes_replaceLibrary o p) (Options.skeleton_rewritten _) r
    ht.symm]
  exact hx.callee

theorem Yields.kept_or_dropped (hx : x.Yields r p e) (o : Options) :
    e ∈ (CallGraph.ofProgram r (o.replaceLibrary p).program).edges ∨ x.IsDropped o p := by
  have hsite := hx.site
  rcases hst : o.standInFor? p p.libraryMethods x.owner x.index x.method with _ | st
  · refine .inl (hx.mem_edges_replaceLibrary (b := x.body) (by rw [hst, hsite.body]; rfl) ?_)
    exact List.mem_map_of_mem hsite.call_mem
  · obtain ⟨b, _, _, d, _, hb, he, hd, hbody⟩ :=
      Options.of_standInFor? hsite.owner hsite.method hst
    cases hb.symm.trans hsite.body
    rcases Subject.mem_targets_of_effects he hsite.instruction hsite.call with ht | hdrop
    · refine .inl (hx.mem_edges_replaceLibrary (b := st.body) (by rw [hst]; rfl) ?_)
      rw [hbody]
      exact hd.mem_targets ht
    · exact .inr ⟨⟨st, hst⟩, hdrop⟩

theorem Yields.old_or_added (hx : x.Yields r (o.replaceLibrary p).program e) :
    e ∈ (CallGraph.ofProgram r p).edges ∨ x.IsAdded o p := by
  obtain ⟨c, m, hc, hname, hm, hb, hold⟩ := hx.of_replaceLibrary
  -- A method without a stand-in has kept its body.
  rcases hst : o.standInFor? p p.libraryMethods c x.index m with _ | st
  · rw [hst] at hb
    exact .inl (hold x.body hb (List.mem_map_of_mem hx.site.call_mem))
  · obtain ⟨b, _, _, d, _, hmb, he, hd, hbody⟩ := Options.of_standInFor? hc hm hst
    rw [hst] at hb
    have hxb : x.body = st.body := (Option.some.inj hb).symm
    have hcall : x.call.target ∈ st.body.invocations.map Invocation.target :=
      List.mem_map_of_mem (hxb ▸ hx.site.call_mem)
    rcases hd.mem_targets_or_adds he (hbody ▸ hcall) with ht | hadd
    · obtain ⟨i, hi, call, hcall, ht⟩ := Subject.exists_of_mem_effects he ht
      refine .inl (hold b hmb (List.mem_map.2 ⟨call, ?_, ht⟩))
      exact List.mem_filterMap.2 ⟨i, hi, hcall⟩
    · exact .inr ⟨c, m, b, st, hc, hname, hm, hmb, hst, hxb, hadd⟩

end CallSite

/-- Replacing the library drops an edge only if every call that yields it is dropped, and adds an
edge only if every call that yields it is added. -/
theorem callGraph_replaceLibrary (o : Options) (p : Program) (r : Resolution) :
    (∀ e ∈ (CallGraph.ofProgram r p).edges,
      e ∈ (CallGraph.ofProgram r (o.replaceLibrary p).program).edges ∨
        (∃ x : CallSite, x.Yields r p e) ∧ ∀ x : CallSite, x.Yields r p e → x.IsDropped o p) ∧
    (∀ e ∈ (CallGraph.ofProgram r (o.replaceLibrary p).program).edges,
      e ∈ (CallGraph.ofProgram r p).edges ∨
        (∃ x : CallSite, x.Yields r (o.replaceLibrary p).program e) ∧
          ∀ x : CallSite, x.Yields r (o.replaceLibrary p).program e → x.IsAdded o p) := by
  refine ⟨fun e hmem => ?_, fun e hmem => ?_⟩
  · by_cases he : e ∈ (CallGraph.ofProgram r (o.replaceLibrary p).program).edges
    · exact .inl he
    · refine .inr ⟨CallGraph.mem_edges_ofProgram.1 hmem, fun x hx => ?_⟩
      exact (hx.kept_or_dropped o).resolve_left he
  · by_cases he : e ∈ (CallGraph.ofProgram r p).edges
    · exact .inl he
    · refine .inr ⟨CallGraph.mem_edges_ofProgram.1 hmem, fun x hx => ?_⟩
      exact hx.old_or_added.resolve_left he

end Standin
