import Standin.Proofs.Closure

/-!
# Stand-ins are well typed

Every variable of a stand-in is declared, calls are made on receivers of the types that are asked
for, and what is thrown, returned or passed to a call has the type that is asked for
(`standIn_typed`). The one exception is a static initializer that has parameters: it is run without
arguments, so all calls have the arguments that they ask for just if no class that is initialized
has such a one.
-/

namespace Standin

open Draft

/-- The type of the constants that stand for values of a primitive type: small types have none of
their own. -/
def Primitive.ofConstants : Primitive → Primitive
  | boolean => int
  | byte => int
  | char => int
  | short => int
  | p => p

theorem Primitive.type?_one (p : Primitive) :
    p.one.type? = some (.primitive p.ofConstants) := by
  cases p <;> rfl

/-- A call in the form in which a stand-in makes it: the receiver has a type just if there is
one. -/
def Call.completed (c : Call) : Call :=
  { c with receiver := c.receiverType? }

/-- The type of a variable that gets the value. What is copied goes into the place of the body,
which is one for all objects. -/
def Expr.targetType? : Expr → Option ValueType
  | use _ => some .object
  | staticField f => some f.type
  | cast _ t => some t
  | v => v.madeType?

theorem Expr.targetType?_of_madeType? {v : Expr} {t : ValueType} (h : v.madeType? = some t) :
    v.targetType? = some t := by
  cases v with
  | use _ | staticField _ | cast _ _ => cases h
  | _ => exact h

/-- What a deed comes to, where constructors are run on new objects. -/
def Deed.typedCall : Deed → Call
  | construct _ k => ⟨.special, k, some (.reference k.className)⟩
  | runInitializer k => ⟨.static, k, none⟩
  | call c => c.completed

/-- What a deed comes to in a body with variables of known types. -/
def Deed.callIn (b : Body) : Deed → Call
  | construct x k => ⟨.special, k, b.typeOf? x⟩
  | deed => deed.typedCall

namespace Body

/-- `v` may be used as a value of type `t`: it is a variable of that very type, or the constant that
stands for all values of a primitive type. -/
def Fits (b : Body) : ValueType → Operand → Prop
  | .primitive p, v =>
    v = .const p.one ∧ b.operandType? v = some (.primitive p.ofConstants)
  | t, v => ∃ x, v = .var x ∧ b.typeOf? x = some t

/-- A value may be returned as a result of that type. -/
def FitsResult (b : Body) : ResultType → Option Operand → Prop
  | .void, v => v = none
  | .value t, v => ∃ w, v = some w ∧ b.Fits t w

/-- A call of the body with the declared type of its receiver. -/
def call (b : Body) (i : Invocation) : Call :=
  ⟨i.dispatch, i.callee, i.receiver.bind b.typeOf?⟩

/-- The calls of a body with the declared types of their receivers, in order. -/
def calls (b : Body) : List Call :=
  b.invocations.map b.call

/-- The call has the arguments that its callee asks for. -/
def Applies (b : Body) (i : Invocation) : Prop :=
  List.Forall₂ b.Fits i.callee.params i.args

end Body

/-- The calls that the effects of a body and those of the log come to, with the types of their
receivers. -/
def Program.typedCalls (p : Program) (s : Subject) (e : Effects) (r : ReflectiveEffects)
    (supers exceptions : List MethodRef) (xs : List VarId) : List Call :=
  supers.map (fun k => ⟨.special, k, some (.reference s.owner.name)⟩) ++
    (p.creationDeeds [] ((e.created r exceptions).zip xs)).map Deed.typedCall ++
    (p.lateInitializers e r exceptions).map (fun k => ⟨.static, k, none⟩) ++
    (e.statements ++ e.results ++ r.calls).map Call.completed

/-- The body of a stand-in for `s` is well typed, where it has the effects `e` of a method and the
effects `r` of the log. -/
structure Body.WellTyped (b : Body) (p : Program) (s : Subject) (e : Effects)
    (r : ReflectiveEffects) (supers exceptions : List MethodRef) : Prop where
  superConstructors :
    List.Forall₂ (fun c k => p.superConstructor c = .ok k) s.calledSuperclass?.toList supers
  exceptionConstructors :
    List.Forall₂ (fun c k => p.anyConstructor c = .ok k) e.checkedExceptions exceptions
  inScope : b.Scoped
  calls : b.calls = p.typedCalls s e r supers exceptions (b.objects.map Prod.fst)
  receivers : ∀ i ∈ b.invocations, i.receiver.isSome ↔ i.dispatch ≠ .static
  /-- Only a static initializer may lack arguments. -/
  arguments : ∀ i ∈ b.invocations, b.Applies i ∨ ∃ c ∈ e.initialized r exceptions,
    ∃ k, p.initializer? c = some k ∧ i = ⟨.static, k, none, []⟩
  assigned : ∀ x v, .assign (.var x) v ∈ b.code →
    ∃ t, v.targetType? = some t ∧ b.typeOf? x = some t
  thrown : List.Forall₂ (fun t v => ∃ x, v = .var x ∧ b.typeOf? x = some t)
    (e.throwables.filter ValueType.isReferenceLike) b.thrown
  returned : List.Forall₂ b.FitsResult [s.method.result] b.returned

/-! ## Drafts -/

namespace Draft.Sound

variable {a : Abstraction} {g : FieldRef} {d : Draft}

theorem typeOf?_of_offers (h : d.Sound a g) {t : ValueType} {x : VarId} (hx : d.Offers t x) :
    d.body.typeOf? x = some t := by
  rcases hx with ⟨_, ht⟩ | hc
  · exact ht
  · exact (h.casts t x hc).1

theorem fits (h : d.Sound a g) {t : ValueType} {v : Operand} (hv : d.Supplies t v) :
    d.body.Fits t v := by
  cases t with
  | primitive p =>
    obtain rfl : v = .const p.one := hv
    exact ⟨rfl, p.type?_one⟩
  | reference _ | array _ _ =>
    obtain ⟨x, rfl, hx⟩ := hv
    exact ⟨x, rfl, h.typeOf?_of_offers hx⟩

/-- The variable that stands for all objects has the type of the place. -/
theorem typeOf?_representative (h : d.Sound a g) {r : VarId} (hr : d.representative = some r) :
    d.body.typeOf? r = some (match a with
      | .shared f => f.type
      | .perUnit => .object) := by
  have hrep := h.representative r hr
  cases a with
  | shared f => exact hrep.1
  | perUnit => exact hrep.1

theorem typeOf?_of_preparation (h : d.Sound a g) {x : VarId} {v : Expr}
    (hi : Preparation a d (.assign (.var x) v)) :
    ∃ t, v.targetType? = some t ∧ d.body.typeOf? x = some t := by
  cases hi with
  | @load f _ ha hr =>
    subst ha
    exact ⟨f.type, rfl, h.typeOf?_representative hr⟩
  | null ha hr =>
    subst ha
    exact ⟨.object, rfl, h.typeOf?_representative hr⟩
  | @cast t _ _ hc _ => exact ⟨t, rfl, (h.casts t x hc).1⟩

theorem typeOf?_of_keeps (h : d.Sound a g) {x y : VarId} {v : Expr}
    (hi : d.Keeps a y (.assign (.var x) v)) :
    ∃ t, v.targetType? = some t ∧ d.body.typeOf? x = some t := by
  cases a with
  | shared f => cases hi
  | perUnit =>
    obtain ⟨r, hr, hi⟩ := hi
    cases hi
    exact ⟨.object, rfl, h.typeOf?_representative hr⟩

theorem call_of_performs (h : d.Sound a g) {deed : Deed} {i : Invocation}
    (hi : d.Performs deed i) : d.body.call i = deed.callIn d.body := by
  cases deed with
  | construct x m =>
    obtain ⟨args, rfl, _⟩ := hi
    rfl
  | runInitializer m =>
    obtain rfl : i = ⟨.static, m, none, []⟩ := hi
    rfl
  | call c =>
    have hi' : d.Makes c i := hi
    have hr : i.receiver.bind d.body.typeOf? = c.receiverType? := by
      rcases ht : c.receiverType? with _ | t
      · rw [hi'.static ht]
        rfl
      · obtain ⟨x, hx, ho⟩ := hi'.receiver t ht
        rw [hx, Option.bind_some, h.typeOf?_of_offers ho]
    simp only [Body.call, hi'.dispatch, hi'.callee, hr]
    rfl

end Draft.Sound

namespace Drafted

variable {o : Options} {p : Program} {s : Subject} {e : Effects}
  {supers exceptions : List MethodRef} {d : Draft} {code : List Instruction}

theorem typeOf?_this (h : Drafted o p s e supers exceptions d code)
    (hs : s.method.isStatic = false) : d.body.typeOf? 0 = some (.reference s.owner.name) :=
  h.typeOf?_arrival (v := (.this, .reference s.owner.name)) (by simp [Subject.arrivals, hs])

theorem typeOf?_of_zip (h : Drafted o p s e supers exceptions d code) {k : MethodRef}
    {x : VarId} (hk : (k, x) ∈ (e.created (.collect p o.log e) exceptions).zip
      (d.body.objects.map Prod.fst)) : d.body.typeOf? x = some (.reference k.className) := by
  obtain ⟨⟨t, ht, hx⟩, _⟩ := h.keeps_made (Body.mem_objects.1 (h.mem_objects_of_zip hk)) rfl
  cases ht
  exact hx

theorem typedCalls (h : Drafted o p s e supers exceptions d code) :
    d.body.calls = p.typedCalls s e (.collect p o.log e) supers exceptions
      (d.body.objects.map Prod.fst) := by
  have hnew : ∀ deed ∈ p.creationDeeds [] ((e.created (.collect p o.log e) exceptions).zip
      (d.body.objects.map Prod.fst)), deed.callIn d.body = deed.typedCall := by
    intro deed hd
    obtain ⟨k, x, hk, rfl | ⟨m, _, rfl⟩⟩ := Program.mem_creationDeeds hd
    · simp only [Deed.callIn, Deed.typedCall, h.typeOf?_of_zip hk]
    · rfl
  have hsuper : ∀ k ∈ supers, (Deed.construct 0 k).callIn d.body =
      ⟨.special, k, some (.reference s.owner.name)⟩ := by
    intro k hk
    simp only [Deed.callIn, h.typeOf?_this (h.isStatic_eq_false hk)]
  calc d.body.calls = (p.deeds e (.collect p o.log e) supers exceptions
          (d.body.objects.map Prod.fst)).map (Deed.callIn d.body) :=
        map_eq_map_of_forall₂ (fun _ _ _ => h.sound.call_of_performs) h.calls.1
    _ = _ := by
        simp only [Program.deeds, Program.typedCalls, List.map_append, List.map_map,
          List.map_congr_left hnew]
        congr 3
        exact List.map_congr_left hsuper

theorem isSome_receiver (h : Drafted o p s e supers exceptions d code) {i : Invocation}
    (hi : i ∈ d.body.invocations) : i.receiver.isSome ↔ i.dispatch ≠ .static := by
  obtain ⟨deed, _, hd⟩ := exists_of_mem_forall₂ h.calls.1 hi
  cases deed with
  | construct x m =>
    obtain ⟨args, rfl, _⟩ := hd
    simp
  | runInitializer m =>
    obtain rfl : i = ⟨.static, m, none, []⟩ := hd
    simp
  | call c =>
    have hd' : d.Makes c i := hd
    rw [hd'.dispatch]
    by_cases hc : c.dispatch = .static
    · have ht : c.receiverType? = none := if_pos hc
      simp [hd'.static ht, hc]
    · obtain ⟨x, hx, _⟩ := hd'.receiver _ (if_neg hc)
      simp [hx, hc]

theorem applies_or_initializes (h : Drafted o p s e supers exceptions d code) {i : Invocation}
    (hi : i ∈ d.body.invocations) :
    d.body.Applies i ∨ ∃ c ∈ e.initialized (.collect p o.log e) exceptions,
      ∃ k, p.initializer? c = some k ∧ i = ⟨.static, k, none, []⟩ := by
  obtain ⟨deed, hdeed, hd⟩ := exists_of_mem_forall₂ h.calls.1 hi
  rcases Program.mem_deeds hdeed with ⟨k, _, rfl⟩ | ⟨k, x, _, rfl⟩ | ⟨c, hc, k, hk, rfl⟩ |
    ⟨c, _, rfl⟩
  · obtain ⟨args, rfl, ha⟩ := hd
    exact .inl (ha.imp fun _ _ => h.sound.fits)
  · obtain ⟨args, rfl, ha⟩ := hd
    exact .inl (ha.imp fun _ _ => h.sound.fits)
  · exact .inr ⟨c, hc, k, hk, hd⟩
  · have hd' : d.Makes c i := hd
    refine .inl ?_
    rw [Body.Applies, hd'.callee]
    exact hd'.args.imp fun _ _ => h.sound.fits

theorem initializes (h : Drafted o p s e supers exceptions d code) {c : String}
    (hc : c ∈ e.initialized (.collect p o.log e) exceptions) {k : MethodRef}
    (hk : p.initializer? c = some k) : ⟨.static, k, none, []⟩ ∈ d.body.invocations := by
  have hdeed : .runInitializer k ∈ p.deeds e (.collect p o.log e) supers exceptions
      (d.body.objects.map Prod.fst) := Program.runInitializer_mem_deeds h.length_objects hc hk
  obtain ⟨i, hi, hd⟩ := exists_of_mem_forall₂ h.calls.1.flip hdeed
  obtain rfl : i = ⟨.static, k, none, []⟩ := hd
  exact hi

theorem typeOf?_of_assign (h : Drafted o p s e supers exceptions d code) {x : VarId} {v : Expr}
    (hi : .assign (.var x) v ∈ d.code) :
    ∃ t, v.targetType? = some t ∧ d.body.typeOf? x = some t := by
  rw [h.code_eq, List.mem_append] at hi
  rcases hi with hi | hi
  · obtain ⟨y, source, hy⟩ := Subject.eq_bind_of_mem_bindings hi
    cases hy
  · obtain ⟨_, _, _, b, hb, hib, _⟩ := h.blocks.exists_of_mem hi
    rcases hb.origin?_of_mem hib with ho | hp | ⟨y, hk⟩ | ⟨y, hy, hg⟩ | ⟨y, v', t, k, hm, ht, hy, _⟩
    · cases ho
    · exact h.sound.typeOf?_of_preparation hp
    · exact h.sound.typeOf?_of_keeps hk
    · cases hg
      exact ⟨_, rfl, (h.sound.guard x hy).1⟩
    · cases hm
      exact ⟨t, Expr.targetType?_of_madeType? ht, hy⟩

theorem wellTyped (h : Drafted o p s e supers exceptions d code) :
    d.body.WellTyped p s e (.collect p o.log e) supers exceptions where
  superConstructors := h.superConstructors
  exceptionConstructors := h.exceptionConstructors
  inScope := h.sound.inScope
  calls := h.typedCalls
  receivers _ := h.isSome_receiver
  arguments _ := h.applies_or_initializes
  assigned _ _ := h.typeOf?_of_assign
  thrown := h.exits.1.imp fun _ _ ⟨x, hx, ho⟩ => ⟨x, hx, h.sound.typeOf?_of_offers ho⟩
  returned := by
    refine h.exits.2.imp fun t v hv => ?_
    cases t with
    | void => exact hv
    | value t =>
      obtain ⟨w, hw, hs⟩ := hv
      exact ⟨w, hw, h.sound.fits hs⟩

end Drafted

/-! ## Tidying -/

theorem forall₂_map_of_mem {α β γ : Type} {R : α → β → Prop} {S : α → γ → Prop} {f : β → γ} :
    ∀ {xs : List α} {ys : List β}, (∀ x, ∀ y ∈ ys, R x y → S x (f y)) → List.Forall₂ R xs ys →
      List.Forall₂ S xs (ys.map f)
  | _, _, _, .nil => .nil
  | _, _, hf, .cons h hs =>
    .cons (hf _ _ List.mem_cons_self h)
      (forall₂_map_of_mem (fun x y hy => hf x y (List.mem_cons_of_mem _ hy)) hs)

theorem Program.typedCalls_map (p : Program) (s : Subject) (e : Effects) (r : ReflectiveEffects)
    (supers exceptions : List MethodRef) (xs : List VarId) (f : VarId → VarId) :
    p.typedCalls s e r supers exceptions (xs.map f) =
      p.typedCalls s e r supers exceptions xs := by
  have hcall : Deed.typedCall ∘ Deed.mapVars f = Deed.typedCall := by
    funext deed
    cases deed <;> rfl
  simp only [typedCalls, creationDeeds_map, List.map_map, hcall]

theorem Expr.targetType?_mapVars (f : VarId → VarId) (v : Expr) :
    (v.mapVars f).targetType? = v.targetType? := by
  cases v <;> rfl

namespace Body

variable {b : Body}

theorem Fits.tidy {t : ValueType} {v : Operand} (h : b.Fits t v)
    (hv : ∀ x ∈ v.vars, x ∈ b.usedVars) : b.tidy.Fits t (v.mapVars b.renumbering) := by
  cases t with
  | primitive p =>
    obtain ⟨rfl, ht⟩ := h
    exact ⟨rfl, ht⟩
  | reference _ | array _ _ =>
    obtain ⟨x, rfl, hx⟩ := h
    refine ⟨b.renumbering x, rfl, ?_⟩
    rw [typeOf?_tidy (hv x List.mem_cons_self)]
    exact hx

theorem Applies.tidy (hs : b.Scoped) {i : Invocation} (hi : i ∈ b.invocations)
    (h : b.Applies i) : b.tidy.Applies (i.mapVars b.renumbering) := by
  refine forall₂_map_of_mem (fun t v hv ht => ht.tidy fun x hx => ?_) h
  exact hs.mem_usedVars_of_invocations hi
    (List.mem_append_right _ (List.mem_flatMap.2 ⟨v, hv, hx⟩))

theorem Scoped.calls_tidy (hs : b.Scoped) : b.tidy.calls = b.calls := by
  unfold calls
  rw [invocations_tidy, List.map_map]
  refine List.map_congr_left fun i hi => ?_
  rcases hr : i.receiver with _ | x
  · simp [call, Invocation.mapVars, hr]
  · have hx : x ∈ b.usedVars :=
      hs.mem_usedVars_of_invocations hi (by simp [Invocation.vars, hr])
    simp [call, Invocation.mapVars, hr, typeOf?_tidy hx]

theorem WellTyped.tidy {p : Program} {s : Subject} {e : Effects} {r : ReflectiveEffects}
    {supers exceptions : List MethodRef} (h : b.WellTyped p s e r supers exceptions) :
    b.tidy.WellTyped p s e r supers exceptions where
  superConstructors := h.superConstructors
  exceptionConstructors := h.exceptionConstructors
  inScope := h.inScope.tidy
  calls := by
    rw [h.inScope.calls_tidy, h.calls, map_fst_objects_tidy, Program.typedCalls_map]
  receivers i hi := by
    rw [invocations_tidy] at hi
    obtain ⟨j, hj, rfl⟩ := List.mem_map.1 hi
    simpa [Invocation.mapVars] using h.receivers j hj
  arguments i hi := by
    rw [invocations_tidy] at hi
    obtain ⟨j, hj, rfl⟩ := List.mem_map.1 hi
    rcases h.arguments j hj with ha | ⟨c, hc, k, hk, rfl⟩
    · exact .inl (ha.tidy h.inScope hj)
    · exact .inr ⟨c, hc, k, hk, rfl⟩
  assigned x v hi := by
    obtain ⟨y, v', hy, rfl, rfl⟩ := assign_mem_tidy.1 hi
    rw [Expr.targetType?_mapVars, typeOf?_tidy (h.inScope.mem_usedVars hy List.mem_cons_self)]
    exact h.assigned y v' hy
  thrown := by
    rw [thrown_tidy]
    refine forall₂_map_of_mem (fun t v hv ht => ?_) h.thrown
    obtain ⟨x, rfl, hx⟩ := ht
    refine ⟨b.renumbering x, rfl, ?_⟩
    rw [typeOf?_tidy (h.inScope.mem_usedVars_of_thrown hv List.mem_cons_self)]
    exact hx
  returned := by
    rw [returned_tidy]
    refine forall₂_map_of_mem (fun t v hv ht => ?_) h.returned
    cases t with
    | void =>
      obtain rfl : v = none := ht
      rfl
    | value t =>
      obtain ⟨w, rfl, hw⟩ := ht
      exact ⟨_, rfl, hw.tidy fun x hx => h.inScope.mem_usedVars_of_returned hv hx⟩

end Body

/-- A stand-in is well typed, but for static initializers that have parameters: all its calls have
the arguments that they ask for just if no class that it initializes has such a one. -/
theorem standIn_typed {o : Options} {p : Program} {m : MethodRef} {st : StandIn}
    (h : (o.standIn p m).outcome = .ok st) :
    ∃ s supers exceptions, Options.subject p m = .ok s ∧ s.effects = .ok st.effects ∧
      st.body.WellTyped p s st.effects (.collect p o.log st.effects) supers exceptions ∧
      ((∀ i ∈ st.body.invocations, st.body.Applies i) ↔
        ∀ c ∈ st.effects.initialized (.collect p o.log st.effects) exceptions,
          ∀ k, p.initializer? c = some k → k.params = []) := by
  obtain ⟨s, supers, exceptions, d, _, hs, he, hd, hbody⟩ := standIn_eq_ok h
  have htyped : st.body.WellTyped p s st.effects (.collect p o.log st.effects) supers
      exceptions := by
    rw [hbody]
    exact hd.wellTyped.tidy
  refine ⟨s, supers, exceptions, hs, he, htyped, ?_, ?_⟩
  · intro happ c hc k hk
    -- The initializer is among the calls, and fits its parameters only if there are none.
    have hmem : (⟨.static, k, none, []⟩ : Invocation) ∈ st.body.invocations := by
      rw [hbody, Body.invocations_tidy]
      exact List.mem_map.2 ⟨_, hd.initializes hc hk, rfl⟩
    exact List.forall₂_nil_right_iff.1 (happ _ hmem)
  · intro hnil i hi
    rcases htyped.arguments i hi with ha | ⟨c, hc, k, hk, rfl⟩
    · exact ha
    · have hparams : k.params = [] := hnil c hc k hk
      rw [Body.Applies, hparams]
      exact .nil

theorem standIn_typed_sample :
    ∃ st, ((Sample.options .perUnit).standIn Sample.program Sample.constructor).outcome = .ok st ∧
      ∃ s supers exceptions, Options.subject Sample.program Sample.constructor = .ok s ∧
        s.effects = .ok st.effects ∧
        st.body.WellTyped Sample.program s st.effects
          (.collect Sample.program (Sample.options .perUnit).log st.effects) supers exceptions ∧
        ((∀ i ∈ st.body.invocations, st.body.Applies i) ↔
          ∀ c ∈ st.effects.initialized
              (.collect Sample.program (Sample.options .perUnit).log st.effects) exceptions,
            ∀ k, Sample.program.initializer? c = some k → k.params = []) :=
  ⟨_, rfl, standIn_typed rfl⟩

namespace Sample

/-- A class whose static initializer has a parameter, and a method that creates an object of it. -/
def eager : Program where
  classes :=
    [library "A" none [method "run" [] true (some
        ⟨[⟨"x", .reference "X"⟩],
          [.assign (.var 0) (.new "X"),
            .invoke ⟨.special, ⟨"X", "<init>", [], .void⟩, some 0, []⟩, .ret none], []⟩)],
      library "X" none
        [method "<init>" [] false none, method "<clinit>" [.primitive .int] true none]]
  distinct := by decide

/-- The method of `eager` that creates an object. -/
def run : MethodRef :=
  ⟨"A", "run", [], .void⟩

end Sample

/-- A static initializer that has a parameter is run without an argument. -/
theorem standIn_initializer_unapplied :
    ∃ st, ((Sample.options .perUnit).standIn Sample.eager Sample.run).outcome = .ok st ∧
      ∃ i ∈ st.body.invocations, i.callee.params = [.primitive .int] ∧ i.args = [] ∧
        ¬ st.body.Applies i := by
  refine ⟨_, rfl, ⟨.static, ⟨"X", "<clinit>", [.primitive .int], .void⟩, none, []⟩, ?_, rfl, rfl,
    nofun⟩
  exact List.mem_cons_of_mem _ List.mem_cons_self

end Standin
