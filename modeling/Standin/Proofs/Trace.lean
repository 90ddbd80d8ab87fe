import Mathlib.Data.List.Nodup
import Standin.Proofs.Calls

/-!
# A stand-in has exactly the effects that it was made from

The trace of a body is what its calls come to: how each is dispatched, whom it calls, and on which
new object it is made, if it is made on one (`Body.trace`). The trace of a stand-in is known call by
call from the effects of the body and of the log, and so are its allocations
(`standIn_doesExactly`).
-/

namespace Standin

open Draft

/-- A call as it is seen from outside: whom it names, and on which new object it is made. -/
structure Event where
  dispatch : Dispatch
  callee : MethodRef
  /-- The new object that the call is made on. -/
  object : Option VarId
deriving DecidableEq, Repr

/-- The event under other names of the variables. -/
def Event.mapVars (f : VarId → VarId) (e : Event) : Event :=
  { e with object := e.object.map f }

/-- The event of a call in a body that creates `objects`. -/
def Invocation.event (objects : List VarId) (i : Invocation) : Event :=
  ⟨i.dispatch, i.callee, i.receiver.filter (· ∈ objects)⟩

/-- The calls of a body, in order. -/
def Body.trace (b : Body) : List Event :=
  b.invocations.map (Invocation.event (b.objects.map Prod.fst))

/-- What a deed comes to, where constructors are run on new objects. -/
def Deed.event : Deed → Event
  | construct x m => ⟨.special, m, some x⟩
  | runInitializer m => ⟨.static, m, none⟩
  | call c => ⟨c.dispatch, c.callee, none⟩

/-- What a deed comes to if `objects` are the new objects. -/
def Deed.eventAmong (objects : List VarId) : Deed → Event
  | construct x m => ⟨.special, m, (some x).filter (· ∈ objects)⟩
  | deed => deed.event

/-- The calls that the effects of a body and those of the log come to, if `xs` are the new
objects. -/
def Program.trace (p : Program) (e : Effects) (r : ReflectiveEffects)
    (supers exceptions : List MethodRef) (xs : List VarId) : List Event :=
  supers.map (fun k => ⟨.special, k, none⟩) ++
    (p.creationDeeds [] ((e.created r exceptions).zip xs)).map Deed.event ++
    (p.lateInitializers e r exceptions).map (fun k => ⟨.static, k, none⟩) ++
    (e.statements ++ e.results ++ r.calls).map fun c => ⟨c.dispatch, c.callee, none⟩

theorem Instruction.mem_vars_of_invocation? {i : Instruction} {c : Invocation} {x : VarId}
    (h : i.invocation? = some c) (hx : x ∈ c.vars) : x ∈ i.vars := by
  unfold invocation? at h
  split at h
  · cases h
    exact hx
  · cases h
    exact List.mem_append_right _ hx
  · cases h

namespace Body

theorem Scoped.mem_usedVars_of_invocations {b : Body} (h : b.Scoped) {i : Invocation} {x : VarId}
    (hi : i ∈ b.invocations) (hx : x ∈ i.vars) : x ∈ b.usedVars := by
  obtain ⟨j, hj, hc⟩ := List.mem_filterMap.1 hi
  exact h.mem_usedVars hj (Instruction.mem_vars_of_invocation? hc hx)

theorem Scoped.mem_usedVars_of_objects {b : Body} (h : b.Scoped) {x : VarId}
    (hx : x ∈ b.objects.map Prod.fst) : x ∈ b.usedVars := by
  obtain ⟨⟨_, c⟩, hc, rfl⟩ := List.mem_map.1 hx
  exact h.mem_usedVars (mem_objects.1 hc) (by simp [Instruction.vars, Place.vars])

theorem map_fst_objects_tidy (b : Body) :
    b.tidy.objects.map Prod.fst = (b.objects.map Prod.fst).map b.renumbering := by
  rw [objects_tidy, List.map_map, List.map_map]
  rfl

/-- Tidying changes no more of a trace than the names of the new objects. -/
theorem Scoped.trace_tidy {b : Body} (h : b.Scoped) :
    b.tidy.trace = b.trace.map (Event.mapVars b.renumbering) := by
  unfold trace
  rw [invocations_tidy, List.map_map, List.map_map, map_fst_objects_tidy]
  refine List.map_congr_left fun i hi => ?_
  rcases hr : i.receiver with _ | x
  · simp [Invocation.event, Event.mapVars, Invocation.mapVars, hr]
  · have hx : x ∈ b.usedVars :=
      h.mem_usedVars_of_invocations hi (by simp [Invocation.vars, hr])
    have hiff : b.renumbering x ∈ (b.objects.map Prod.fst).map b.renumbering ↔
        x ∈ b.objects.map Prod.fst := by
      refine ⟨fun hm => ?_, List.mem_map_of_mem⟩
      obtain ⟨y, hy, he⟩ := List.mem_map.1 hm
      exact renumbering_injective (h.mem_usedVars_of_objects hy) hx he ▸ hy
    simp only [Function.comp_apply, Invocation.event, Event.mapVars, Invocation.mapVars, hr,
      Option.map_some, Option.filter_some, hiff]
    split <;> rfl

end Body

theorem Deed.event_mapVars (f : VarId → VarId) (deed : Deed) :
    (deed.mapVars f).event = deed.event.mapVars f := by
  cases deed <;> rfl

theorem Program.trace_map (p : Program) (e : Effects) (r : ReflectiveEffects)
    (supers exceptions : List MethodRef) (xs : List VarId) (f : VarId → VarId) :
    (p.trace e r supers exceptions xs).map (Event.mapVars f) =
      p.trace e r supers exceptions (xs.map f) := by
  have hevent : Event.mapVars f ∘ Deed.event = Deed.event ∘ Deed.mapVars f :=
    funext fun deed => (deed.event_mapVars f).symm
  simp only [Program.trace, List.map_append, creationDeeds_map, List.map_map, hevent]
  rfl

theorem Effects.mapVars_allocated {e : Effects} {r : ReflectiveEffects}
    {exceptions : List MethodRef} (f : VarId → VarId) {v : Expr}
    (h : v ∈ e.allocated r exceptions) : v.mapVars f = v := by
  have harray : ∀ t : ValueType, t.arrayAllocation.mapVars f = t.arrayAllocation := by
    simp [ValueType.arrayAllocation, Expr.mapVars, Operand.mapVars]
  simp only [Effects.allocated, List.mem_append, List.mem_map] at h
  rcases h with (((⟨k, _, rfl⟩ | ⟨t, _, rfl⟩) | ⟨k, _, rfl⟩) | ⟨k, _, rfl⟩) | ⟨t, _, rfl⟩
  · rfl
  · exact harray t
  · rfl
  · rfl
  · exact harray t

namespace Draft.Sound

variable {a : Abstraction} {g : FieldRef} {d : Draft}

theorem origins_of_mem_objects (h : d.Sound a g) {x : VarId}
    (hx : x ∈ d.body.objects.map Prod.fst) : ∃ c, d.body.origins x = [.value (.new c)] := by
  obtain ⟨⟨_, c⟩, hc, rfl⟩ := List.mem_map.1 hx
  exact ⟨c, h.origins_eq_of_mem (Body.mem_origins.2 ⟨_, Body.mem_objects.1 hc, rfl⟩) rfl⟩

theorem not_mem_objects_of_offers (h : d.Sound a g) {t : ValueType} {x : VarId}
    (hx : d.Offers t x) : x ∉ d.body.objects.map Prod.fst := by
  intro hm
  obtain ⟨c, hc⟩ := h.origins_of_mem_objects hm
  rcases h.origins_of_offers hx with ht | ⟨v, hv⟩
  · have := ht (.value (.new c)) (by simp [hc])
    cases this
  · rw [hc] at hv
    cases hv

theorem event_of_performs (h : d.Sound a g) {deed : Deed} {i : Invocation}
    (hi : d.Performs deed i) :
    i.event (d.body.objects.map Prod.fst) = deed.eventAmong (d.body.objects.map Prod.fst) := by
  cases deed with
  | construct x m =>
    obtain ⟨args, rfl, _⟩ := hi
    rfl
  | runInitializer m =>
    obtain rfl : i = ⟨.static, m, none, []⟩ := hi
    rfl
  | call c =>
    have hi' : d.Makes c i := hi
    have hr : i.receiver.filter (· ∈ d.body.objects.map Prod.fst) = none := by
      rcases ht : c.receiverType? with _ | t
      · rw [hi'.static ht]
        rfl
      · obtain ⟨x, hx, ho⟩ := hi'.receiver t ht
        simpa [hx] using h.not_mem_objects_of_offers ho
    simp only [Invocation.event, hi'.dispatch, hi'.callee, hr]
    rfl

theorem nodup_objects (h : d.Sound a g) : (d.body.objects.map Prod.fst).Nodup := by
  refine List.nodup_iff_count.2 fun x => ?_
  by_cases hx : x ∈ d.body.objects.map Prod.fst
  · obtain ⟨c, hc⟩ := h.origins_of_mem_objects hx
    simpa [hc] using Body.count_objects_le d.body x
  · rw [List.count_eq_zero_of_not_mem hx]
    exact Nat.zero_le 1

end Draft.Sound

namespace Drafted

variable {o : Options} {p : Program} {s : Subject} {e : Effects}
  {supers exceptions : List MethodRef} {d : Draft} {code : List Instruction}

/-- The receiver of a constructor that calls that of its superclass is in variable 0. -/
theorem bind_this (h : Drafted o p s e supers exceptions d code) (hs : s.method.isStatic = false) :
    Instruction.bind 0 .this ∈ d.code := by
  rw [h.code_eq]
  refine List.mem_append_left _ (Subject.bind_mem_bindings.2 ⟨0, .reference s.owner.name, rfl, ?_⟩)
  simp [Subject.arrivals, hs]

theorem isStatic_eq_false (h : Drafted o p s e supers exceptions d code) {k : MethodRef}
    (hk : k ∈ supers) : s.method.isStatic = false := by
  have hs := h.superConstructors
  rcases hc : s.calledSuperclass? with _ | c
  · rw [hc] at hs
    cases hs
    cases hk
  · exact (Subject.calledSuperclass?_eq_some.1 hc).2.1

theorem origins_this (h : Drafted o p s e supers exceptions d code)
    (hs : s.method.isStatic = false) : d.body.origins 0 = [.incoming .this] :=
  h.sound.origins_eq_of_mem (Body.mem_origins.2 ⟨_, h.bind_this hs, rfl⟩) rfl

theorem trace (h : Drafted o p s e supers exceptions d code) :
    d.body.trace =
      p.trace e (.collect p o.log e) supers exceptions (d.body.objects.map Prod.fst) := by
  have hnew : ∀ deed ∈ p.creationDeeds [] ((e.created (.collect p o.log e) exceptions).zip
      (d.body.objects.map Prod.fst)),
      deed.eventAmong (d.body.objects.map Prod.fst) = deed.event := by
    intro deed hd
    obtain ⟨k, x, hk, rfl | ⟨m, _, rfl⟩⟩ := Program.mem_creationDeeds hd
    · simp [Deed.eventAmong, Deed.event, (List.of_mem_zip hk).2]
    · rfl
  -- The constructor of the superclass is the one that is not run on a new object.
  have hsuper : ∀ k ∈ supers, (Deed.construct 0 k).eventAmong (d.body.objects.map Prod.fst) =
      ⟨.special, k, none⟩ := by
    intro k hk
    have h0 : 0 ∉ d.body.objects.map Prod.fst := by
      intro hm
      obtain ⟨c, hc⟩ := h.sound.origins_of_mem_objects hm
      rw [h.origins_this (h.isStatic_eq_false hk)] at hc
      cases hc
    simp only [Deed.eventAmong, Option.filter_some, h0, decide_false, Bool.false_eq_true, if_false]
  calc d.body.trace = (p.deeds e (.collect p o.log e) supers exceptions
          (d.body.objects.map Prod.fst)).map
            (Deed.eventAmong (d.body.objects.map Prod.fst)) :=
        map_eq_map_of_forall₂ (fun _ _ _ => h.sound.event_of_performs) h.calls.1
    _ = _ := by
        simp only [Program.deeds, Program.trace, List.map_append, List.map_map,
          List.map_congr_left hnew]
        congr 3
        exact List.map_congr_left hsuper

end Drafted

/-- The body does what the effects `e` of a method and the effects `r` of the log come to: no call
is lost, made twice or moved, and each new object is made by one call of its constructor. -/
structure Body.DoesExactly (b : Body) (p : Program) (s : Subject) (e : Effects)
    (r : ReflectiveEffects) (supers exceptions : List MethodRef) : Prop where
  superConstructors :
    List.Forall₂ (fun c k => p.superConstructor c = .ok k) s.calledSuperclass?.toList supers
  exceptionConstructors :
    List.Forall₂ (fun c k => p.anyConstructor c = .ok k) e.checkedExceptions exceptions
  trace : b.trace = p.trace e r supers exceptions (b.objects.map Prod.fst)
  allocations : b.allocations.map Prod.snd = e.allocated r exceptions
  classes : b.objects.map Prod.snd = (e.created r exceptions).map MethodRef.className
  distinct : (b.objects.map Prod.fst).Nodup

/-- A stand-in has the effects that it was made from. -/
theorem standIn_doesExactly {o : Options} {p : Program} {m : MethodRef} {st : StandIn}
    (h : (o.standIn p m).outcome = .ok st) :
    ∃ s supers exceptions, Options.subject p m = .ok s ∧ s.effects = .ok st.effects ∧
      st.body.DoesExactly p s st.effects (.collect p o.log st.effects) supers exceptions := by
  obtain ⟨s, supers, exceptions, d, code, hs, he, hd, hbody⟩ := standIn_eq_ok h
  obtain ⟨_, hvalues, hnames⟩ := hd.calls
  have hscope := hd.sound.inScope
  refine ⟨s, supers, exceptions, hs, he, hd.superConstructors, hd.exceptionConstructors, ?_, ?_, ?_,
    ?_⟩
  · rw [hbody, hscope.trace_tidy, hd.trace, Program.trace_map, Body.map_fst_objects_tidy]
  · rw [hbody, Body.allocations_tidy, ← hvalues, List.map_map]
    exact List.map_congr_left fun q hq =>
      Effects.mapVars_allocated _ (hvalues ▸ List.mem_map_of_mem hq)
  · rw [hbody, Body.objects_tidy, List.map_map, ← hnames]
    rfl
  · rw [hbody, Body.map_fst_objects_tidy]
    refine hd.sound.nodup_objects.map_on fun x hx y hy he => ?_
    exact Body.renumbering_injective (hscope.mem_usedVars_of_objects hx)
      (hscope.mem_usedVars_of_objects hy) he

/-! ## A sample -/

namespace Sample

/-- A method without a result. -/
def method (name : String) (params : List ValueType) (isStatic : Bool) (body : Option Body) :
    MethodDecl :=
  ⟨name, params, .void, isStatic, false, false, body⟩

/-- A library class without interfaces and fields. -/
def library (name : String) (superclass : Option String) (methods : List MethodDecl) : ClassDecl :=
  ⟨name, superclass, [], false, false, [], methods⟩

/-- The reflective lookup of a class. -/
def forName : MethodRef :=
  ⟨"java.lang.Class", "forName", [.reference "java.lang.String"],
    .value (.reference "java.lang.Class")⟩

/-- The constructor of a class that calls that of its superclass, creates an object and an array,
loads a class, throws its argument and handles an exception. -/
def body : Body :=
  ⟨[⟨"a", .reference "A"⟩, ⟨"b", .reference "B"⟩, ⟨"c", .reference "C"⟩,
      ⟨"k", .reference "java.lang.Class"⟩, ⟨"n", .array (.primitive .int) 1⟩],
    [.bind 0 .this, .bind 1 (.parameter 0),
      .invoke ⟨.special, ⟨"B", "<init>", [], .void⟩, some 0, []⟩,
      .assign (.var 2) (.new "C"), .invoke ⟨.special, ⟨"C", "<init>", [], .void⟩, some 2, []⟩,
      .assign (.var 4) (.newArray (.array (.primitive .int) 1) [.const (.int 3)]),
      .assign (.var 3) (.invoke ⟨.static, forName, none, [.const (.string "E")]⟩),
      .throw (.var 1), .ret none],
    [⟨"E", 0, 8, 8⟩]⟩

/-- The class with the constructor `body`, and the classes that it names. -/
def program : Program where
  classes :=
    [library "A" (some "B") [method "<init>" [.reference "B"] false (some body)],
      library "B" none [method "<init>" [] false none],
      library "C" none [method "<init>" [] false none, method "<clinit>" [] true none],
      library "E" none
        [method "<init>" [.reference "C"] false none, method "<clinit>" [] true none]]
  distinct := by decide

/-- The options with a log that names the class `E`. -/
def options (a : Abstraction) : Options :=
  ⟨a, ⟨[(.classForName, "E")]⟩, .guard⟩

/-- A field that all objects are kept in. -/
def place : FieldRef :=
  ⟨"Place", "objects", .object⟩

/-- The constructor with `body`. -/
def constructor : MethodRef :=
  ⟨"A", "<init>", [.reference "B"], .void⟩

end Sample

theorem standIn_doesExactly_sample :
    ∃ st, ((Sample.options .perUnit).standIn Sample.program Sample.constructor).outcome = .ok st ∧
      ∃ s supers exceptions, Options.subject Sample.program Sample.constructor = .ok s ∧
        s.effects = .ok st.effects ∧
        st.body.DoesExactly Sample.program s st.effects
          (.collect Sample.program (Sample.options .perUnit).log st.effects) supers exceptions :=
  ⟨_, rfl, standIn_doesExactly rfl⟩

end Standin
