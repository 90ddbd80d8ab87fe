import Mathlib.Logic.Relation
import Standin.Proofs.Exits
import Standin.Proofs.Scan
import Standin.Proofs.Trace

/-!
# No object passes by the place

A stand-in puts every object that it gets or makes into the place, and takes every object that it
uses from there: directly, or through the one cast to the type that is asked for (`Body.Closed`,
`standIn_closed`). So what goes in anywhere may come out anywhere (`Body.Reaches`), in whatever
order the code is run.
-/

namespace Standin

open Draft

/-- The values that a body makes or gets from a call. -/
def Expr.isMade : Expr → Bool
  | new _ => true
  | newArray _ _ => true
  | invoke _ => true
  | _ => false

/-- Where a body can keep a value. -/
inductive Location
  | var (x : VarId)
  | field (f : FieldRef)

namespace Body

/-- An instruction carries a value from one location to the other. -/
inductive Moves (b : Body) : Location → Location → Prop
  | copy {x y : VarId} : .assign (.var y) (.use (.var x)) ∈ b.code → Moves b (.var x) (.var y)
  | cast {x y : VarId} {t : ValueType} : .assign (.var y) (.cast (.var x) t) ∈ b.code →
    Moves b (.var x) (.var y)
  | store {x : VarId} {f : FieldRef} : .assign (.staticField f) (.use (.var x)) ∈ b.code →
    Moves b (.var x) (.field f)
  | load {y : VarId} {f : FieldRef} : .assign (.var y) (.staticField f) ∈ b.code →
    Moves b (.field f) (.var y)

/-- A value may get from one location to the other if instructions run in any order. -/
def Reaches (b : Body) : Location → Location → Prop :=
  Relation.ReflTransGen b.Moves

/-- The body puts the value of `x` into the place, where `r` is the variable that stands for all
objects. -/
def Stores (b : Body) (a : Abstraction) (r : Option VarId) (x : VarId) : Prop :=
  match a with
  | .shared f => .assign (.staticField f) (.use (.var x)) ∈ b.code
  | .perUnit => ∃ y, r = some y ∧ .assign (.var y) (.use (.var x)) ∈ b.code

/-- The value of `x` is an object of the place: `x` is the variable that stands for all objects, or
its only value is the cast of that variable to its own type. -/
def Draws (b : Body) (r : Option VarId) (x : VarId) : Prop :=
  ∃ y, r = some y ∧ (x = y ∨
    ∃ t, b.typeOf? x = some t ∧ b.origins x = [.value (.cast (.var y) t)])

/-- The receiver `x` of a call that is no object of the place: the constructor of the superclass is
called on the receiver of the method, and other constructors on new objects. -/
def Constructs (b : Body) (s : Subject) (i : Invocation) (x : VarId) : Prop :=
  (s.isSuperConstructorCall i ∧ b.origins x = [.incoming .this]) ∨
    (i.dispatch = .special ∧ i.callee.isConstructor ∧
      b.origins x = [.value (.new i.callee.className)])

/-- Every object goes through the place, for which `r` stands. -/
structure Closed (b : Body) (a : Abstraction) (s : Subject) (r : Option VarId) : Prop where
  /-- Incoming values have variables of their types. -/
  arrivals : ∀ v ∈ s.arrivals, ∃ x, .bind x v.1 ∈ b.code ∧ b.typeOf? x = some v.2
  received : ∀ x source, .bind x source ∈ b.code →
    ∃ t, (source, t) ∈ s.arrivals ∧ b.typeOf? x = some t ∧ (t.isReferenceLike → b.Stores a r x)
  made : ∀ x e, .assign (.var x) e ∈ b.code → e.isMade → b.Stores a r x
  arguments : ∀ i ∈ b.invocations, ∀ x, .var x ∈ i.args → b.Draws r x
  receivers : ∀ i ∈ b.invocations, ∀ x, i.receiver = some x → b.Draws r x ∨ b.Constructs s i x
  thrown : ∀ x, .var x ∈ b.thrown → b.Draws r x
  returned : ∀ x, some (.var x) ∈ b.returned → b.Draws r x
  representative : ∀ x, r = some x → a.Represents b x

theorem assign_mem_of_origins {b : Body} {x : VarId} {e : Expr} (h : .value e ∈ b.origins x) :
    .assign (.var x) e ∈ b.code := by
  obtain ⟨i, hi, ho⟩ := mem_origins.1 h
  rcases i with ⟨y, source⟩ | ⟨dest, e'⟩ | c | v | ⟨v, t⟩ | t | v | _ <;> try cases ho
  cases dest <;> cases ho
  exact hi

theorem Closed.reaches {b : Body} {a : Abstraction} {s : Subject} {r : Option VarId}
    (h : b.Closed a s r) {x y : VarId} (hx : b.Stores a r x) (hy : b.Draws r y) :
    b.Reaches (.var x) (.var y) := by
  obtain ⟨z, hz, hy⟩ := hy
  have hrep := h.representative z hz
  -- A value gets to `z` by way of the shared field, or straight from the store into `z`.
  have hxz : b.Reaches (.var x) (.var z) := by
    cases a with
    | shared f =>
      have hload : .assign (.var z) (.staticField f) ∈ b.code :=
        assign_mem_of_origins (by simp [hrep.2])
      exact (Relation.ReflTransGen.single (Moves.store hx)).tail (.load hload)
    | perUnit =>
      obtain ⟨z', hz', hx⟩ := hx
      cases hz.symm.trans hz'
      exact .single (.copy hx)
  rcases hy with rfl | ⟨t, _, ho⟩
  · exact hxz
  · have hcast : .assign (.var y) (.cast (.var z) t) ∈ b.code :=
      assign_mem_of_origins (by simp [ho])
    exact hxz.tail (.cast hcast)

end Body

/-! ## Constructors -/

namespace Program

variable {p : Program} {c : String} {k : MethodRef}

/-- A method that is asked of a class by name is one of the class of that name. -/
theorem ref_of_declared {f : ClassDecl → Option MethodDecl} {e : SynthesisError}
    (h : (p.declared c >>= fun d =>
      match f d with
      | some m => .ok (m.ref d.name)
      | none => .error e) = .ok k) :
    k.className = c ∧ ∃ d m, f d = some m ∧ k = m.ref d.name := by
  unfold declared at h
  rcases hc : p.class? c with _ | d
  · rw [hc] at h
    cases h
  · rw [hc] at h
    rcases hm : f d with _ | m
    · simp only [bind, Except.bind, hm] at h
      cases h
    · simp only [bind, Except.bind, hm] at h
      cases h
      exact ⟨name_of_class? hc, d, m, hm, rfl⟩

theorem superConstructor_eq_ok (h : p.superConstructor c = .ok k) :
    k.className = c ∧ k.isConstructor := by
  obtain ⟨hc, d, m, hm, rfl⟩ := ref_of_declared h
  have hmem : m ∈ d.constructors := List.mem_of_find?_eq_some hm
  exact ⟨hc, (List.mem_filter.1 hmem).2⟩

theorem anyConstructor_eq_ok (h : p.anyConstructor c = .ok k) :
    k.className = c ∧ k.isConstructor := by
  obtain ⟨hc, d, m, hm, rfl⟩ := ref_of_declared h
  have hmem : m ∈ d.constructors := by
    rcases Option.or_eq_some_iff.1 hm with hd | ⟨_, hd⟩
    · exact List.mem_of_find?_eq_some hd
    · exact List.mem_of_mem_head? hd
  exact ⟨hc, (List.mem_filter.1 hmem).2⟩

end Program

theorem ReflectiveEffects.isConstructor_collect {p : Program} {log : ReflectionLog} {e : Effects}
    {m : MethodRef} (h : m ∈ (collect p log e).objectCreations) : m.isConstructor := by
  obtain ⟨⟨_, _, _, hmeans⟩, _⟩ := has_collect_iff (f := .objectCreation m) |>.1 h
  cases hmeans with
  | @object _ c k _ _ _ hk =>
    have hmem : k ∈ c.constructors := List.mem_of_find?_eq_some hk
    exact (List.mem_filter.1 hmem).2
  | constructed _ hctor _ => exact hctor

/-! ## Drafts -/

section Blocks

variable {a : Abstraction} {g : FieldRef} {d : Draft} {pos : Nat} {seen : List String}

theorem Draft.Keeps.stores {x : VarId} {k : Instruction} (hk : d.Keeps a x k) (hmem : k ∈ d.code) :
    d.body.Stores a d.representative x := by
  cases a with
  | shared f =>
    obtain rfl : k = .assign (.staticField f) (.use (.var x)) := hk
    exact hmem
  | perUnit =>
    obtain ⟨r, hr, rfl⟩ := hk
    exact ⟨r, hr, hmem⟩

theorem Draft.Sound.draws {t : ValueType} {x : VarId} (h : d.Sound a g) (hx : d.Offers t x) :
    d.body.Draws d.representative x := by
  rcases hx with ⟨hr, _⟩ | hc
  · exact ⟨x, hr, .inl rfl⟩
  · obtain ⟨ht, r, hr, ho⟩ := h.casts t x hc
    exact ⟨r, hr, .inr ⟨t, ht, ho⟩⟩

theorem Draft.Sound.draws_of_supplies {t : ValueType} {x : VarId} (h : d.Sound a g)
    (hx : d.Supplies t (.var x)) : d.body.Draws d.representative x := by
  rcases hx.constant_or_object with ⟨p, _, hv⟩ | ⟨y, hv, ho⟩
  · cases hv
  · cases hv
    exact h.draws ho

theorem Blocks.keeps_made {steps : List Step} {code : List Instruction}
    (h : Blocks a g d pos seen steps code) {x : VarId} {e : Expr}
    (hi : .assign (.var x) e ∈ code) (he : e.isMade) :
    (∃ t, e.madeType? = some t ∧ d.typeOf? x = some t) ∧ ∃ k ∈ code, d.Keeps a x k := by
  obtain ⟨pos', seen', s, b, hb, hib, hsub⟩ := h.exists_of_mem hi
  rcases hb.origin?_of_mem hib with ho | hp | ⟨y, hk⟩ | ⟨y, _, hg⟩ |
    ⟨y, e', t, k, hm, ht, hy, hkb, hk⟩
  · cases ho
  · cases hp <;> cases he
  · obtain ⟨dest, hk⟩ := hk.eq_assign
    cases hk
    cases he
  · cases hg
    cases he
  · cases hm
    exact ⟨⟨t, ht, hy⟩, k, hsub hkb, hk⟩

theorem Blocks.bind_not_mem {steps : List Step} {code : List Instruction}
    (h : Blocks a g d pos seen steps code) {x : VarId} {source : Incoming} :
    .bind x source ∉ code := by
  intro hi
  obtain ⟨pos', seen', s, b, hb, hib, _⟩ := h.exists_of_mem hi
  rcases hb.origin?_of_mem hib with ho | hp | ⟨y, hk⟩ | ⟨y, _, hg⟩ | ⟨y, e', t, k, hm, _⟩
  · cases ho
  · cases hp
  · obtain ⟨dest, hk⟩ := hk.eq_assign
    cases hk
  · cases hg
  · cases hm

end Blocks

namespace Drafted

variable {o : Options} {p : Program} {s : Subject} {e : Effects}
  {supers exceptions : List MethodRef} {d : Draft} {code : List Instruction}

theorem code_subset (h : Drafted o p s e supers exceptions d code) : code ⊆ d.code := by
  rw [h.code_eq]
  exact List.subset_append_right _ _

theorem typeOf?_arrival (h : Drafted o p s e supers exceptions d code) {x : VarId}
    {v : Incoming × ValueType} (hx : s.arrivals[x]? = some v) : d.body.typeOf? x = some v.2 := by
  have hin : s.incoming[x]? = some v.2 := Subject.getElem?_incoming hx
  obtain ⟨ts, hts⟩ := h.types
  have hdecl : (d.declared.map Variable.type)[x]? = some v.2 := by
    rw [← hts, List.getElem?_append_left (List.getElem?_eq_some_iff.1 hin).1]
    exact hin
  rwa [List.getElem?_map] at hdecl

theorem stores_arrival (h : Drafted o p s e supers exceptions d code) {x : VarId}
    {v : Incoming × ValueType} (hx : s.arrivals[x]? = some v) (hv : v.2.isReferenceLike) :
    d.body.Stores o.abstraction d.representative x := by
  have hkeep : Step.keep x ∈ s.steps p e (.collect p o.log e) supers exceptions :=
    Subject.keep_mem_steps.2 ⟨v.2, Subject.getElem?_incoming hx, hv⟩
  obtain ⟨_, _, b, hb, hsub⟩ := h.blocks.exists_of_step hkeep
  cases hb with
  | keep hk => exact hk.stores (h.code_subset (hsub List.mem_cons_self))

theorem bind_mem_code (h : Drafted o p s e supers exceptions d code) {x : VarId}
    {source : Incoming} :
    .bind x source ∈ d.code ↔ ∃ t, s.arrivals[x]? = some (source, t) := by
  rw [h.code_eq, List.mem_append, Subject.bind_mem_bindings]
  constructor
  · rintro (⟨k, t, hx, hk⟩ | hi)
    · rw [Nat.zero_add] at hx
      exact ⟨t, hx ▸ hk⟩
    · exact absurd hi h.blocks.bind_not_mem
  · rintro ⟨t, hx⟩
    exact .inl ⟨x, t, (Nat.zero_add x).symm, hx⟩

theorem isConstructor_of_created (h : Drafted o p s e supers exceptions d code)
    (he : s.effects = .ok e) {k : MethodRef}
    (hk : k ∈ e.created (.collect p o.log e) exceptions) : k.isConstructor := by
  simp only [Effects.created, List.mem_append] at hk
  rcases hk with (hk | hk) | hk
  · exact Subject.isConstructor_of_effects he k hk
  · obtain ⟨c, _, hk⟩ := exists_of_mem_forall₂ h.exceptionConstructors hk
    exact (Program.anyConstructor_eq_ok hk).2
  · exact ReflectiveEffects.isConstructor_collect hk

theorem mem_objects_of_zip (h : Drafted o p s e supers exceptions d code) {k : MethodRef}
    {x : VarId} (hk : (k, x) ∈ (e.created (.collect p o.log e) exceptions).zip
      (d.body.objects.map Prod.fst)) : (x, k.className) ∈ d.body.objects := by
  obtain ⟨n, hn⟩ := List.mem_iff_getElem?.1 hk
  obtain ⟨hk, hx⟩ := List.getElem?_zip_eq_some.1 hn
  rw [List.getElem?_map] at hx
  obtain ⟨⟨_, c⟩, hc, rfl⟩ := Option.map_eq_some_iff.1 hx
  have hnames := congrArg (fun l => l[n]?) h.calls.2.2
  simp only [List.getElem?_map, hc, hk, Option.map_some, Option.some.injEq] at hnames
  exact hnames ▸ List.mem_of_getElem? hc

theorem supplies_of_mem_args (h : Drafted o p s e supers exceptions d code) {i : Invocation}
    (hi : i ∈ d.body.invocations) {v : Operand} (hv : v ∈ i.args) : ∃ t, d.Supplies t v := by
  obtain ⟨deed, _, hd⟩ := exists_of_mem_forall₂ h.calls.1 hi
  cases deed with
  | construct x m =>
    obtain ⟨args, rfl, ha⟩ := hd
    obtain ⟨t, _, ht⟩ := exists_of_mem_forall₂ ha hv
    exact ⟨t, ht⟩
  | runInitializer m =>
    obtain rfl : i = ⟨.static, m, none, []⟩ := hd
    cases hv
  | call c =>
    have hd' : d.Makes c i := hd
    obtain ⟨t, _, ht⟩ := exists_of_mem_forall₂ hd'.args hv
    exact ⟨t, ht⟩

/-- A call is made on an object of the place, unless it runs a constructor. -/
theorem draws_or_constructs (h : Drafted o p s e supers exceptions d code)
    (he : s.effects = .ok e) {i : Invocation} (hi : i ∈ d.body.invocations) {x : VarId}
    (hx : i.receiver = some x) : d.body.Draws d.representative x ∨ d.body.Constructs s i x := by
  obtain ⟨deed, hdeed, hd⟩ := exists_of_mem_forall₂ h.calls.1 hi
  -- The calls for the superclass, for new objects, for static initializers, and all others.
  rcases Program.mem_deeds hdeed with ⟨k, hk, rfl⟩ | ⟨k, y, hk, rfl⟩ | ⟨_, _, m, _, rfl⟩ |
    ⟨c, _, rfl⟩
  · obtain ⟨args, rfl, _⟩ := hd
    cases hx
    obtain ⟨c, hc, hk'⟩ := exists_of_mem_forall₂ h.superConstructors hk
    obtain ⟨hm, _, hsuper⟩ := Subject.calledSuperclass?_eq_some.1 (Option.mem_toList.1 hc)
    obtain ⟨rfl, hctor⟩ := Program.superConstructor_eq_ok hk'
    refine .inr (.inl ⟨?_, h.origins_this (h.isStatic_eq_false hk)⟩)
    simp [Subject.isSuperConstructorCall, hsuper, hm, hctor]
  · obtain ⟨args, rfl, _⟩ := hd
    cases hx
    have hnew := Body.mem_objects.1 (h.mem_objects_of_zip hk)
    exact .inr (.inr ⟨rfl, h.isConstructor_of_created he (List.of_mem_zip hk).1,
      h.sound.origins_eq_of_mem (Body.mem_origins.2 ⟨_, hnew, rfl⟩) rfl⟩)
  · obtain rfl : i = ⟨.static, m, none, []⟩ := hd
    cases hx
  · have hd' : d.Makes c i := hd
    rcases ht : c.receiverType? with _ | t
    · rw [hd'.static ht] at hx
      cases hx
    · obtain ⟨y, hy, ho⟩ := hd'.receiver t ht
      cases hy.symm.trans hx
      exact .inl (h.sound.draws ho)

/-- What is made or comes from a call is kept, in a variable of its type. -/
theorem keeps_made (h : Drafted o p s e supers exceptions d code) {x : VarId} {v : Expr}
    (hi : .assign (.var x) v ∈ d.code) (hv : v.isMade) :
    (∃ t, v.madeType? = some t ∧ d.typeOf? x = some t) ∧
      ∃ k ∈ d.code, d.Keeps o.abstraction x k := by
  rw [h.code_eq, List.mem_append] at hi
  rcases hi with hi | hi
  · obtain ⟨y, source, hy⟩ := Subject.eq_bind_of_mem_bindings hi
    cases hy
  · obtain ⟨ht, k, hk, hkeep⟩ := h.blocks.keeps_made hi hv
    exact ⟨ht, k, h.code_subset hk, hkeep⟩

theorem closed (h : Drafted o p s e supers exceptions d code) (he : s.effects = .ok e) :
    d.body.Closed o.abstraction s d.representative where
  arrivals v hv := by
    obtain ⟨x, hx⟩ := List.mem_iff_getElem?.1 hv
    exact ⟨x, h.bind_mem_code.2 ⟨v.2, hx⟩, h.typeOf?_arrival hx⟩
  received x source hi := by
    obtain ⟨t, ht⟩ := h.bind_mem_code.1 hi
    exact ⟨t, List.mem_of_getElem? ht, h.typeOf?_arrival ht, h.stores_arrival ht⟩
  made x v hi hv := by
    obtain ⟨_, k, hk, hkeep⟩ := h.keeps_made hi hv
    exact hkeep.stores hk
  arguments i hi x hx := by
    obtain ⟨t, ht⟩ := h.supplies_of_mem_args hi hx
    exact h.sound.draws_of_supplies ht
  receivers i hi x hx := h.draws_or_constructs he hi hx
  thrown x hx := by
    obtain ⟨t, _, y, hy, ho⟩ := exists_of_mem_forall₂ h.exits.1 hx
    cases hy
    exact h.sound.draws ho
  returned x hx := by
    obtain ⟨t, _, ht⟩ := exists_of_mem_forall₂ h.exits.2 hx
    cases t with
    | void => cases ht
    | value t =>
      obtain ⟨v, hv, ht⟩ := ht
      cases hv
      exact h.sound.draws_of_supplies ht
  representative := h.sound.representative

end Drafted

/-! ## Tidying -/

theorem Expr.isMade_mapVars (f : VarId → VarId) (e : Expr) : (e.mapVars f).isMade = e.isMade := by
  cases e <;> rfl

theorem Body.Scoped.mem_usedVars_of_origins {b : Body} (h : b.Scoped) {x : VarId} {o : Origin}
    (ho : o ∈ b.origins x) : x ∈ b.usedVars := by
  obtain ⟨i, hi, hio⟩ := List.mem_filterMap.1 ho
  refine h.mem_usedVars hi ?_
  by_contra hx
  rw [Instruction.originOf?_eq_none hx] at hio
  cases hio

theorem Body.Scoped.mem_usedVars_of_thrown {b : Body} (h : b.Scoped) {v : Operand}
    (hv : v ∈ b.thrown) {x : VarId} (hx : x ∈ v.vars) : x ∈ b.usedVars := by
  obtain ⟨i, hi, hthrow⟩ := List.mem_filterMap.1 hv
  cases i <;> cases hthrow
  exact h.mem_usedVars hi hx

theorem Body.Scoped.mem_usedVars_of_returned {b : Body} (h : b.Scoped) {v : Operand}
    (hv : some v ∈ b.returned) {x : VarId} (hx : x ∈ v.vars) : x ∈ b.usedVars := by
  obtain ⟨i, hi, hret⟩ := List.mem_filterMap.1 hv
  cases i <;> cases hret
  refine h.mem_usedVars hi ?_
  simpa [Instruction.vars] using hx

namespace Abstraction

variable {a : Abstraction} {b : Body} {x : VarId}

theorem Represents.mem_usedVars (h : a.Represents b x) (hs : b.Scoped) :
    x ∈ b.usedVars := by
  cases a with
  | shared f => exact hs.mem_usedVars_of_origins (o := .value (.staticField f)) (by simp [h.2])
  | perUnit =>
    obtain ⟨_, o, xs, ho, _⟩ := h
    exact hs.mem_usedVars_of_origins (o := o) (by simp [ho])

theorem Represents.tidy (h : a.Represents b x) (hs : b.Scoped) :
    a.Represents b.tidy (b.renumbering x) := by
  have hx := h.mem_usedVars hs
  cases a with
  | shared f =>
    refine ⟨by rw [Body.typeOf?_tidy hx]; exact h.1, ?_⟩
    rw [hs.origins_tidy hx, h.2]
    rfl
  | perUnit =>
    obtain ⟨ht, o, xs, ho, hnull⟩ := h
    refine ⟨by rw [Body.typeOf?_tidy hx]; exact ht, o.mapVars b.renumbering, xs.map b.renumbering,
      ?_, ?_⟩
    · rw [hs.origins_tidy hx, ho, List.map_cons, List.map_map, List.map_map]
      rfl
    · rcases hnull with rfl | ⟨y, rfl⟩
      · exact .inl rfl
      · exact .inr ⟨b.renumbering y, rfl⟩

end Abstraction

namespace Body

variable {b : Body} {a : Abstraction} {s : Subject} {r : Option VarId}

theorem Stores.tidy {x : VarId} (h : b.Stores a r x) :
    b.tidy.Stores a (r.map b.renumbering) (b.renumbering x) := by
  cases a with
  | shared f => exact (mem_code_tidy rfl Instruction.noConfusion).2 ⟨_, h, rfl⟩
  | perUnit =>
    obtain ⟨y, rfl, h⟩ := h
    exact ⟨b.renumbering y, rfl, (mem_code_tidy rfl Instruction.noConfusion).2 ⟨_, h, rfl⟩⟩

theorem Draws.tidy (hs : b.Scoped) {x : VarId} (hx : x ∈ b.usedVars) (h : b.Draws r x) :
    b.tidy.Draws (r.map b.renumbering) (b.renumbering x) := by
  obtain ⟨y, rfl, rfl | ⟨t, ht, ho⟩⟩ := h
  · exact ⟨_, rfl, .inl rfl⟩
  · refine ⟨_, rfl, .inr ⟨t, by rw [typeOf?_tidy hx]; exact ht, ?_⟩⟩
    rw [hs.origins_tidy hx, ho]
    rfl

theorem Constructs.tidy (hs : b.Scoped) {i : Invocation} {x : VarId} (hx : x ∈ b.usedVars)
    (h : b.Constructs s i x) :
    b.tidy.Constructs s (i.mapVars b.renumbering) (b.renumbering x) := by
  rcases h with ⟨hi, ho⟩ | ⟨hd, hk, ho⟩
  · refine .inl ⟨hi, ?_⟩
    rw [hs.origins_tidy hx, ho]
    rfl
  · refine .inr ⟨hd, hk, ?_⟩
    rw [hs.origins_tidy hx, ho]
    rfl

theorem bind_mem_tidy {x : VarId} {source : Incoming} :
    .bind x source ∈ b.tidy.code ↔ ∃ y, .bind y source ∈ b.code ∧ b.renumbering y = x := by
  rw [mem_code_tidy rfl Instruction.noConfusion]
  constructor
  · rintro ⟨j, hj, he⟩
    cases j <;> cases he
    exact ⟨_, hj, rfl⟩
  · rintro ⟨y, hy, rfl⟩
    exact ⟨_, hy, rfl⟩

theorem assign_mem_tidy {x : VarId} {e : Expr} :
    .assign (.var x) e ∈ b.tidy.code ↔ ∃ y e', .assign (.var y) e' ∈ b.code ∧
      b.renumbering y = x ∧ e'.mapVars b.renumbering = e := by
  rw [mem_code_tidy rfl Instruction.noConfusion]
  constructor
  · rintro ⟨j, hj, he⟩
    rcases j with ⟨y, source⟩ | ⟨dest, e'⟩ | c | v | ⟨v, t⟩ | t | v | _ <;> try cases he
    cases dest <;> cases he
    exact ⟨_, _, hj, rfl, rfl⟩
  · rintro ⟨y, e', hy, rfl, rfl⟩
    exact ⟨_, hy, rfl⟩

theorem Closed.tidy (hs : b.Scoped) (h : b.Closed a s r) :
    b.tidy.Closed a s (r.map b.renumbering) where
  arrivals v hv := by
    obtain ⟨x, hx, ht⟩ := h.arrivals v hv
    refine ⟨b.renumbering x, bind_mem_tidy.2 ⟨x, hx, rfl⟩, ?_⟩
    rw [typeOf?_tidy (hs.mem_usedVars hx List.mem_cons_self)]
    exact ht
  received x source hi := by
    obtain ⟨y, hy, rfl⟩ := bind_mem_tidy.1 hi
    obtain ⟨t, ht, hty, hkeep⟩ := h.received y source hy
    refine ⟨t, ht, ?_, fun hr => (hkeep hr).tidy⟩
    rw [typeOf?_tidy (hs.mem_usedVars hy List.mem_cons_self)]
    exact hty
  made x e hi he := by
    obtain ⟨y, e', hy, rfl, rfl⟩ := assign_mem_tidy.1 hi
    rw [Expr.isMade_mapVars] at he
    exact (h.made y e' hy he).tidy
  arguments i hi x hx := by
    rw [invocations_tidy] at hi
    obtain ⟨j, hj, rfl⟩ := List.mem_map.1 hi
    obtain ⟨v, hv, hvx⟩ := List.mem_map.1 hx
    cases v <;> cases hvx
    next y =>
    have hy : y ∈ b.usedVars := hs.mem_usedVars_of_invocations hj <|
      List.mem_append_right _ (List.mem_flatMap.2 ⟨_, hv, List.mem_cons_self⟩)
    exact (h.arguments j hj y hv).tidy hs hy
  receivers i hi x hx := by
    rw [invocations_tidy] at hi
    obtain ⟨j, hj, rfl⟩ := List.mem_map.1 hi
    obtain ⟨y, hy, rfl⟩ := Option.map_eq_some_iff.1 hx
    have hused : y ∈ b.usedVars :=
      hs.mem_usedVars_of_invocations hj (by simp [Invocation.vars, hy])
    exact (h.receivers j hj y hy).imp (Draws.tidy hs hused) (Constructs.tidy hs hused)
  thrown x hx := by
    rw [thrown_tidy] at hx
    obtain ⟨v, hv, hvx⟩ := List.mem_map.1 hx
    cases v <;> cases hvx
    next y => exact (h.thrown y hv).tidy hs (hs.mem_usedVars_of_thrown hv List.mem_cons_self)
  returned x hx := by
    rw [returned_tidy] at hx
    obtain ⟨v, hv, hvx⟩ := List.mem_map.1 hx
    obtain ⟨v, rfl, hvx⟩ := Option.map_eq_some_iff.1 hvx
    cases v <;> cases hvx
    next y => exact (h.returned y hv).tidy hs (hs.mem_usedVars_of_returned hv List.mem_cons_self)
  representative x hx := by
    obtain ⟨y, hy, rfl⟩ := Option.map_eq_some_iff.1 hx
    exact (h.representative y hy).tidy hs

end Body

/-- In a stand-in every object goes through the place, so whatever is put into it anywhere may come
out of it anywhere. -/
theorem standIn_closed {o : Options} {p : Program} {m : MethodRef} {st : StandIn}
    (h : (o.standIn p m).outcome = .ok st) :
    ∃ s r, Options.subject p m = .ok s ∧ st.body.Closed o.abstraction s r ∧
      ∀ x y, st.body.Stores o.abstraction r x → st.body.Draws r y →
        st.body.Reaches (.var x) (.var y) := by
  obtain ⟨s, _, _, d, _, hs, he, hd, hbody⟩ := standIn_eq_ok h
  have hclosed : st.body.Closed o.abstraction s (d.representative.map d.body.renumbering) := by
    rw [hbody]
    exact (hd.closed he).tidy hd.sound.inScope
  exact ⟨s, _, hs, hclosed, fun x y => hclosed.reaches⟩

theorem standIn_closed_sample :
    ∃ st, ((Sample.options (.shared Sample.place)).standIn Sample.program
        Sample.constructor).outcome = .ok st ∧
      ∃ s r, Options.subject Sample.program Sample.constructor = .ok s ∧
        st.body.Closed (Sample.options (.shared Sample.place)).abstraction s r ∧
        ∀ x y, st.body.Stores (Sample.options (.shared Sample.place)).abstraction r x →
          st.body.Draws r y → st.body.Reaches (.var x) (.var y) :=
  ⟨_, rfl, standIn_closed rfl⟩

end Standin
