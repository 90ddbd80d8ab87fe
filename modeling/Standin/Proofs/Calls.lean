import Standin.Proofs.Plan
import Standin.Proofs.Reflection

/-!
# The calls of a stand-in

A stand-in calls the constructor of the superclass, creates objects and runs the static initializer
of each class once, and then makes the calls of the body and of the log. `Deed` is what a call is
there for. The calls of a draft do the deeds of its steps in order, and nothing is allocated but
what the steps create (`Drafted.calls`).
-/

namespace Standin

open Draft

/-- What a call in a stand-in is there for. -/
inductive Deed
  | construct (x : VarId) (constructor : MethodRef)
  | runInitializer (initializer : MethodRef)
  | call (c : Call)

/-- The deed under other names of the variables. -/
def Deed.mapVars (f : VarId → VarId) : Deed → Deed
  | construct x m => construct (f x) m
  | deed => deed

/-- The invocation does the deed with objects of the place. -/
def Draft.Performs (d : Draft) : Deed → Invocation → Prop
  | .construct x m, i =>
    ∃ args, i = ⟨.special, m, some x, args⟩ ∧ List.Forall₂ d.Supplies m.params args
  | .runInitializer m, i => i = ⟨.static, m, none, []⟩
  | .call c, i => d.Makes c i

/-- Code that does deeds and allocates values, and no more than that. -/
structure Draft.Does (d : Draft) (code : List Instruction) (deeds : List Deed)
    (allocated : List (Place × Expr)) : Prop where
  invocations : List.Forall₂ d.Performs deeds (code.filterMap Instruction.invocation?)
  allocations : code.filterMap Instruction.allocation? = allocated

namespace Draft

variable {a : Abstraction} {d : Draft}

namespace Does

theorem nil : d.Does [] [] [] :=
  ⟨.nil, rfl⟩

theorem append {code code' : List Instruction} {deeds deeds' : List Deed}
    {allocated allocated' : List (Place × Expr)} (h : d.Does code deeds allocated)
    (h' : d.Does code' deeds' allocated') :
    d.Does (code ++ code') (deeds ++ deeds') (allocated ++ allocated') := by
  refine ⟨?_, ?_⟩
  · rw [List.filterMap_append]
    exact List.rel_append h.invocations h'.invocations
  · rw [List.filterMap_append, h.allocations, h'.allocations]

theorem silent {code : List Instruction} (hi : ∀ i ∈ code, i.invocation? = none)
    (ha : ∀ i ∈ code, i.allocation? = none) : d.Does code [] [] := by
  refine ⟨?_, List.filterMap_eq_nil_iff.2 ha⟩
  rw [List.filterMap_eq_nil_iff.2 hi]
  exact .nil

theorem prepared {q : List Instruction} (hq : ∀ i ∈ q, Preparation a d i) : d.Does q [] [] := by
  refine silent (fun i hi => ?_) fun i hi => ?_
  · cases hq i hi <;> rfl
  · cases hq i hi <;> rfl

theorem kept {x : VarId} {k : Instruction} (hk : d.Keeps a x k) : d.Does [k] [] [] := by
  obtain ⟨dest, rfl⟩ := hk.eq_assign
  exact ⟨.nil, rfl⟩

theorem invoke {deed : Deed} {i : Invocation} (hi : d.Performs deed i) :
    d.Does [.invoke i] [deed] [] :=
  ⟨.cons hi .nil, rfl⟩

theorem allocate {dest : Place} {e : Expr} {i : Instruction} (hc : i.invocation? = none)
    (hi : i.allocation? = some (dest, e)) : d.Does [i] [] [(dest, e)] := by
  refine ⟨?_, by simp [hi]⟩
  rw [List.filterMap_cons_none hc]
  exact .nil

end Does

end Draft

/-- The deed of initializing a class, unless it has been done. -/
def initializerDeeds (seen : List String) (className : String) (initializer : Option MethodRef) :
    List Deed :=
  if className ∈ seen then [] else initializer.toList.map .runInitializer

namespace Step

/-- The deeds of a step that allocates `x`, if it allocates. -/
def deeds (seen : List String) (x : VarId) : Step → List Deed
  | superCall m => [.construct 0 m]
  | create m c init => .construct x m :: initializerDeeds seen c init
  | runInitializer c m => initializerDeeds seen c (some m)
  | statement c => [.call c]
  | result c => [.call c]
  | _ => []

/-- What the step allocates, if it gives it to `x`. -/
def allocated (x : VarId) : Step → List (Place × Expr)
  | create _ c _ => [(.var x, .new c)]
  | createArray t => [(.var x, t.arrayAllocation)]
  | _ => []

end Step

section Blocks

variable {a : Abstraction} {g : FieldRef} {d : Draft} {pos : Nat} {seen : List String}

theorem does_initializerCall (c : String) (init : Option MethodRef) :
    d.Does (initializerCall seen c init) (initializerDeeds seen c init) [] := by
  unfold initializerCall initializerDeeds
  split
  · exact .nil
  · cases init with
    | none => exact .nil
    | some m => exact .invoke rfl

theorem Block.does {s : Step} {b : List Instruction} (hb : Block a g d pos seen s b) :
    ∃ x, d.Does b (s.deeds seen x) (s.allocated x) := by
  cases hb with
  | superCall hq ha => exact ⟨0, (Does.prepared hq).append (.invoke ⟨_, rfl, ha⟩)⟩
  | keep hk => exact ⟨0, .kept hk⟩
  | @create m c init x q args k _ hq ha hk =>
    have hrun : d.Does [.invoke ⟨.special, m, some x, args⟩] [.construct x m] [] :=
      .invoke ⟨_, rfl, ha⟩
    have hnew : d.Does [.assign (.var x) (.new c)] [] [(.var x, .new c)] := .allocate rfl rfl
    have hinit : d.Does (initializerCall seen c init) (initializerDeeds seen c init) [] :=
      does_initializerCall c init
    have h := (((hnew.append (.prepared hq)).append hrun).append hinit).append (.kept hk)
    exact ⟨x, by simpa [Step.deeds, Step.allocated] using h⟩
  | @createArray t x k _ hk =>
    have hnew : d.Does [.assign (.var x) t.arrayAllocation] [] [(.var x, t.arrayAllocation)] :=
      .allocate rfl rfl
    exact ⟨x, hnew.append (.kept hk)⟩
  | runInitializer => exact ⟨0, does_initializerCall _ _⟩
  | statement hq hi => exact ⟨0, (Does.prepared hq).append (.invoke hi)⟩
  | @keptResult c q i t x k hq hi _ _ _ hk =>
    have hcall : d.Does [.assign (.var x) (.invoke i)] [.call c] [] := ⟨.cons hi .nil, rfl⟩
    exact ⟨0, (Does.prepared hq).append (hcall.append (.kept hk))⟩
  | droppedResult hq hi _ => exact ⟨0, (Does.prepared hq).append (.invoke hi)⟩
  | @mayThrow t q l x y hq _ _ hl =>
    refine ⟨0, ?_⟩
    have hload : d.Does l [] [] := by
      rcases hl with rfl | rfl
      · exact .nil
      · exact ⟨.nil, rfl⟩
    have hthrow : ∀ n, d.Does [.branch (.var y) n, .throw (.var x), .nop] [] [] :=
      fun _ => ⟨.nil, rfl⟩
    exact ((Does.prepared hq).append hload).append (hthrow _)
  | retVoid => exact ⟨0, .nil, rfl⟩
  | @retValue t q v hq _ =>
    have hret : d.Does [.ret (some v)] [] [] := ⟨.nil, rfl⟩
    exact ⟨0, (Does.prepared hq).append hret⟩

theorem Blocks.append {steps₁ steps₂ : List Step} {code : List Instruction}
    (h : Blocks a g d pos seen (steps₁ ++ steps₂) code) :
    ∃ code₁ code₂, code = code₁ ++ code₂ ∧ Blocks a g d pos seen steps₁ code₁ ∧
      Blocks a g d (pos + code₁.length) (steps₁.foldl Step.marks seen) steps₂ code₂ := by
  induction steps₁ generalizing pos seen code with
  | nil => exact ⟨[], code, rfl, .nil, h⟩
  | cons s steps₁ ih =>
    cases h with
    | @cons _ _ _ _ b rest hb hw =>
      obtain ⟨code₁, code₂, rfl, h₁, h₂⟩ := ih hw
      refine ⟨b ++ code₁, code₂, (List.append_assoc _ _ _).symm, .cons hb h₁, ?_⟩
      rwa [List.length_append, ← Nat.add_assoc]

end Blocks

/-! ## The parts of a plan -/

/-- A step whose deeds depend on nothing else, and that allocates and initializes nothing. -/
def Step.isSimple : Step → Bool
  | create .. => false
  | createArray _ => false
  | runInitializer .. => false
  | _ => true

namespace Program

/-- The deeds of creating objects, each in its variable, after the classes in `seen` have been
initialized. -/
def creationDeeds (p : Program) : List String → List (MethodRef × VarId) → List Deed
  | _, [] => []
  | seen, (k, x) :: ks =>
    .construct x k :: initializerDeeds seen k.className (p.initializer? k.className) ++
      p.creationDeeds (seen ++ [k.className]) ks

/-- The same classes are in both lists, as far as these have something to initialize. -/
def SameInitialized (p : Program) (seen seen' : List String) : Prop :=
  ∀ c, (p.initializer? c).isSome → (c ∈ seen ↔ c ∈ seen')

variable {p : Program} {seen seen' : List String}

theorem creationDeeds_append : ∀ (seen : List String) (ks ks' : List (MethodRef × VarId)),
    p.creationDeeds seen (ks ++ ks') = p.creationDeeds seen ks ++
      p.creationDeeds (seen ++ ks.map fun k => k.1.className) ks'
  | seen, [], ks' => by simp [creationDeeds]
  | seen, (k, x) :: ks, ks' => by
    simp [creationDeeds, creationDeeds_append (seen ++ [k.className]) ks ks']

theorem creationDeeds_map (p : Program) (f : VarId → VarId) :
    ∀ (seen : List String) (ks : List MethodRef) (xs : List VarId),
      p.creationDeeds seen (ks.zip (xs.map f)) =
        (p.creationDeeds seen (ks.zip xs)).map (Deed.mapVars f)
  | _, [], _ => rfl
  | _, _ :: _, [] => rfl
  | seen, k :: ks, x :: xs => by
    have hinit : ∀ init, (initializerDeeds seen k.className init).map (Deed.mapVars f) =
        initializerDeeds seen k.className init := by
      intro init
      unfold initializerDeeds
      split
      · rfl
      · cases init <;> rfl
    simp only [List.map_cons, List.zip_cons_cons, creationDeeds, List.cons_append,
      List.map_append, hinit, creationDeeds_map p f _ ks xs]
    rfl

theorem mem_creationDeeds {deed : Deed} :
    ∀ {seen : List String} {ks : List (MethodRef × VarId)}, deed ∈ p.creationDeeds seen ks →
      ∃ k x, (k, x) ∈ ks ∧ (deed = .construct x k ∨
        ∃ m, p.initializer? k.className = some m ∧ deed = .runInitializer m)
  | seen, (k, x) :: ks, h => by
    simp only [creationDeeds, List.cons_append, List.mem_cons, List.mem_append] at h
    rcases h with rfl | h | h
    · exact ⟨k, x, List.mem_cons_self, .inl rfl⟩
    · unfold initializerDeeds at h
      split at h
      · cases h
      · obtain ⟨m, hm, rfl⟩ := List.mem_map.1 h
        exact ⟨k, x, List.mem_cons_self, .inr ⟨m, Option.mem_toList.1 hm, rfl⟩⟩
    · obtain ⟨k', x', hk, hd⟩ := mem_creationDeeds h
      exact ⟨k', x', List.mem_cons_of_mem _ hk, hd⟩

theorem construct_mem_creationDeeds {k : MethodRef} {x : VarId} :
    ∀ {seen : List String} {ks : List (MethodRef × VarId)}, (k, x) ∈ ks →
      .construct x k ∈ p.creationDeeds seen ks
  | seen, (k', x') :: ks, h => by
    simp only [creationDeeds, List.cons_append, List.mem_cons, List.mem_append]
    rcases List.mem_cons.1 h with h | h
    · cases h
      exact .inl rfl
    · exact .inr (.inr (construct_mem_creationDeeds h))

/-- A class of which an object is created has been initialized before or is initialized then. -/
theorem runInitializer_mem_creationDeeds {k : MethodRef} {x : VarId} {m : MethodRef}
    (hm : p.initializer? k.className = some m) :
    ∀ {seen : List String} {ks : List (MethodRef × VarId)}, (k, x) ∈ ks → k.className ∉ seen →
      .runInitializer m ∈ p.creationDeeds seen ks
  | seen, (k', x') :: ks, hk, hs => by
    simp only [creationDeeds, List.cons_append, List.mem_cons, List.mem_append]
    by_cases hc : k.className = k'.className
    · refine .inr (.inl ?_)
      rw [← hc, initializerDeeds, if_neg hs, hm]
      exact List.mem_singleton.2 rfl
    · rcases List.mem_cons.1 hk with hk | hk
      · cases hk
        exact absurd rfl hc
      · exact .inr (.inr (runInitializer_mem_creationDeeds hm hk (by simp [hs, hc])))

namespace SameInitialized

theorem initializerDeeds_eq (h : p.SameInitialized seen seen') (c : String) :
    initializerDeeds seen c (p.initializer? c) = initializerDeeds seen' c (p.initializer? c) := by
  unfold initializerDeeds
  rcases hc : p.initializer? c with _ | m
  · simp
  · simp only [h c (by simp [hc])]

theorem marks (h : p.SameInitialized seen seen') {c : String} {s : Step}
    (hs : ∀ l, s.marks l = if (p.initializer? c).isSome then addNew l c else l) :
    p.SameInitialized (s.marks seen) (seen' ++ [c]) := by
  intro c' hc'
  rw [hs]
  split
  · simp [h c' hc']
  · next hc =>
    have hne : c' ≠ c := fun he => hc (he ▸ hc')
    simp [h c' hc', hne]

end SameInitialized

theorem marks_createStep (k : MethodRef) (l : List String) :
    (p.createStep k).marks l =
      if (p.initializer? k.className).isSome then addNew l k.className else l := by
  unfold createStep
  cases p.initializer? k.className <;> rfl

end Program

namespace Blocks

variable {a : Abstraction} {g : FieldRef} {d : Draft} {p : Program} {pos : Nat}
  {seen seen' : List String}

theorem simple {steps : List Step} {code : List Instruction} (hs : ∀ s ∈ steps, s.isSimple)
    (h : Blocks a g d pos seen steps code) :
    d.Does code (steps.flatMap (Step.deeds [] 0)) [] ∧ steps.foldl Step.marks seen = seen := by
  induction h with
  | nil => exact ⟨.nil, rfl⟩
  | @cons pos seen s steps b code hb _ ih =>
    have hsimple : ∀ x, s.deeds seen x = s.deeds [] 0 ∧ s.allocated x = [] ∧
        s.marks seen = seen := by
      intro x
      have := hs s List.mem_cons_self
      cases s <;> simp_all [Step.isSimple, Step.deeds, Step.allocated, Step.marks]
    obtain ⟨x, hx⟩ := hb.does
    obtain ⟨hd, ha, hm⟩ := hsimple x
    obtain ⟨ih, hm'⟩ := ih fun s' hs' => hs s' (List.mem_cons_of_mem _ hs')
    rw [hd, ha] at hx
    refine ⟨hx.append ih, ?_⟩
    rw [List.foldl_cons, hm', hm]

theorem creations {ks : List MethodRef} {code : List Instruction}
    (h : Blocks a g d pos seen (ks.map p.createStep) code) (hs : p.SameInitialized seen seen') :
    ∃ (xs : List VarId) (allocated : List (Place × Expr)), xs.length = ks.length ∧
      d.Does code (p.creationDeeds seen' (ks.zip xs)) allocated ∧
      allocated.map Prod.snd = ks.map (fun k => .new k.className) ∧
      allocated.filterMap Body.newObject? = xs.zip (ks.map MethodRef.className) ∧
      p.SameInitialized ((ks.map p.createStep).foldl Step.marks seen)
        (seen' ++ ks.map MethodRef.className) := by
  induction ks generalizing pos seen seen' code with
  | nil =>
    cases h
    exact ⟨[], [], rfl, .nil, rfl, rfl, by simpa using hs⟩
  | cons k ks ih =>
    cases h with
    | cons hb hw =>
      obtain ⟨x, hx⟩ := hb.does
      obtain ⟨xs, allocated, hlen, hxs, hvalues, hobjects, hsame⟩ :=
        ih hw (hs.marks (Program.marks_createStep k))
      have hd : (p.createStep k).deeds seen x =
          .construct x k :: initializerDeeds seen' k.className (p.initializer? k.className) := by
        rw [← hs.initializerDeeds_eq]
        rfl
      rw [hd] at hx
      refine ⟨x :: xs, (.var x, .new k.className) :: allocated, by simp [hlen], hx.append hxs, ?_,
        ?_, by simpa using hsame⟩
      · rw [List.map_cons, hvalues, List.map_cons]
      · show (x, k.className) :: allocated.filterMap Body.newObject? = _
        rw [hobjects, List.map_cons, List.zip_cons_cons]

theorem arrays {ts : List ValueType} {code : List Instruction}
    (h : Blocks a g d pos seen (ts.map .createArray) code) :
    (∃ allocated, d.Does code [] allocated ∧
      allocated.map Prod.snd = ts.map ValueType.arrayAllocation ∧
      allocated.filterMap Body.newObject? = []) ∧
      (ts.map Step.createArray).foldl Step.marks seen = seen := by
  induction ts generalizing pos code with
  | nil =>
    cases h
    exact ⟨⟨[], .nil, rfl, rfl⟩, rfl⟩
  | cons t ts ih =>
    cases h with
    | cons hb hw =>
      obtain ⟨x, hx⟩ := hb.does
      obtain ⟨⟨allocated, hxs, hvalues, hobjects⟩, hm⟩ := ih hw
      refine ⟨⟨(.var x, t.arrayAllocation) :: allocated, hx.append hxs, ?_, ?_⟩, hm⟩
      · rw [List.map_cons, hvalues, List.map_cons]
      · rw [List.filterMap_cons_none rfl, hobjects]

theorem initializations {cs : List String} {code : List Instruction}
    (h : Blocks a g d pos seen
      (cs.flatMap fun c => (p.initializer? c).toList.map (.runInitializer c)) code)
    (hs : p.SameInitialized seen seen') (hcs : cs.Nodup) :
    d.Does code (((cs.filter (· ∉ seen')).filterMap p.initializer?).map .runInitializer) [] := by
  induction cs generalizing pos seen seen' code with
  | nil =>
    cases h
    exact .nil
  | cons c cs ih =>
    obtain ⟨hc, hcs⟩ := List.nodup_cons.1 hcs
    -- A class that has been initialized does not come again.
    have hfilter : cs.filter (· ∉ seen' ++ [c]) = cs.filter (· ∉ seen') := by
      refine List.filter_congr fun c' hc' => ?_
      have hne : c' ≠ c := fun he => hc (he ▸ hc')
      simp [hne]
    rcases hm : p.initializer? c with _ | m
    · rw [List.flatMap_cons, hm] at h
      have := ih h hs hcs
      by_cases hseen : c ∈ seen' <;> simpa [List.filter_cons, hseen, hm] using this
    · rw [List.flatMap_cons, hm] at h
      cases h with
      | cons hb hw =>
        obtain ⟨x, hx⟩ := hb.does
        have hrest := ih hw (hs.marks (c := c) fun l => by simp [hm, Step.marks]) hcs
        rw [hfilter] at hrest
        have hd : (Step.runInitializer c m).deeds seen x = initializerDeeds seen' c (some m) := by
          rw [← hm, ← hs.initializerDeeds_eq, hm]
          rfl
        rw [hd] at hx
        have := hx.append hrest
        by_cases hseen : c ∈ seen' <;>
          simpa [initializerDeeds, List.filter_cons, hseen, hm, Step.allocated] using this

end Blocks

theorem map_eq_map_of_forall₂ {α β γ : Type} {R : α → β → Prop} {f : β → γ} {g : α → γ} :
    ∀ {xs : List α} {ys : List β}, (∀ x ∈ xs, ∀ y, R x y → f y = g x) → List.Forall₂ R xs ys →
      ys.map f = xs.map g
  | _, _, _, .nil => rfl
  | _, _, hf, .cons h hs => by
    rw [List.map_cons, List.map_cons, hf _ List.mem_cons_self _ h,
      map_eq_map_of_forall₂ (fun x hx => hf x (List.mem_cons_of_mem _ hx)) hs]

theorem exists_of_mem_forall₂ {α β : Type} {R : α → β → Prop} {y : β} :
    ∀ {xs : List α} {ys : List β}, List.Forall₂ R xs ys → y ∈ ys → ∃ x ∈ xs, R x y
  | _, _, .cons h hs, hy => by
    rcases List.mem_cons.1 hy with rfl | hy
    · exact ⟨_, List.mem_cons_self, h⟩
    · obtain ⟨x, hx, hxy⟩ := exists_of_mem_forall₂ hs hy
      exact ⟨x, List.mem_cons_of_mem _ hx, hxy⟩

/-- The constructors that a stand-in runs on new objects. -/
def Effects.created (e : Effects) (r : ReflectiveEffects) (exceptions : List MethodRef) :
    List MethodRef :=
  e.objectCreations ++ exceptions ++ r.objectCreations

/-- What a stand-in allocates, in order: for the effects of the body, for the handled exceptions and
for the effects `r` of the log. -/
def Effects.allocated (e : Effects) (r : ReflectiveEffects) (exceptions : List MethodRef) :
    List Expr :=
  e.objectCreations.map (fun k => .new k.className) ++
    e.arrayCreations.map ValueType.arrayAllocation ++
    exceptions.map (fun k => .new k.className) ++
    r.objectCreations.map (fun k => .new k.className) ++
    r.arrayCreations.map ValueType.arrayAllocation

/-- The static initializers that run for the log alone. -/
def Program.lateInitializers (p : Program) (e : Effects) (r : ReflectiveEffects)
    (exceptions : List MethodRef) : List MethodRef :=
  (r.initializedClasses.filter
    (· ∉ (e.created r exceptions).map MethodRef.className)).filterMap p.initializer?

/-- Everything that the calls of a stand-in are there for, if it creates objects in `xs`. -/
def Program.deeds (p : Program) (e : Effects) (r : ReflectiveEffects)
    (supers exceptions : List MethodRef) (xs : List VarId) : List Deed :=
  supers.map (.construct 0) ++ p.creationDeeds [] ((e.created r exceptions).zip xs) ++
    (p.lateInitializers e r exceptions).map .runInitializer ++
    (e.statements ++ e.results ++ r.calls).map .call

/-- The classes that a stand-in initializes, if they have something to initialize. -/
def Effects.initialized (e : Effects) (r : ReflectiveEffects) (exceptions : List MethodRef) :
    List String :=
  (e.created r exceptions).map MethodRef.className ++ r.initializedClasses

section Deeds

variable {p : Program} {e : Effects} {r : ReflectiveEffects} {supers exceptions : List MethodRef}
  {xs : List VarId}

theorem Program.mem_deeds {deed : Deed} (h : deed ∈ p.deeds e r supers exceptions xs) :
    (∃ k ∈ supers, deed = .construct 0 k) ∨
      (∃ k x, (k, x) ∈ (e.created r exceptions).zip xs ∧ deed = .construct x k) ∨
      (∃ c ∈ e.initialized r exceptions, ∃ m, p.initializer? c = some m ∧
        deed = .runInitializer m) ∨
      ∃ c ∈ e.statements ++ e.results ++ r.calls, deed = .call c := by
  unfold deeds at h
  rw [List.mem_append, List.mem_append, List.mem_append] at h
  rcases h with ((h | h) | h) | h
  · obtain ⟨k, hk, rfl⟩ := List.mem_map.1 h
    exact .inl ⟨k, hk, rfl⟩
  · obtain ⟨k, x, hk, rfl | ⟨m, hm, rfl⟩⟩ := mem_creationDeeds h
    · exact .inr (.inl ⟨k, x, hk, rfl⟩)
    · have hc : k.className ∈ (e.created r exceptions).map MethodRef.className :=
        List.mem_map_of_mem (List.of_mem_zip hk).1
      exact .inr (.inr (.inl ⟨_, List.mem_append_left _ hc, m, hm, rfl⟩))
  · obtain ⟨m, hm, rfl⟩ := List.mem_map.1 h
    obtain ⟨c, hc, hm⟩ := List.mem_filterMap.1 hm
    exact .inr (.inr (.inl ⟨c, List.mem_append_right _ (List.mem_of_mem_filter hc), m, hm, rfl⟩))
  · obtain ⟨c, hc, rfl⟩ := List.mem_map.1 h
    exact .inr (.inr (.inr ⟨c, hc, rfl⟩))

theorem exists_mem_zip {α β : Type} {x : α} {xs : List α} {ys : List β}
    (hl : ys.length = xs.length) (hx : x ∈ xs) : ∃ y, (x, y) ∈ xs.zip ys := by
  obtain ⟨n, hn, rfl⟩ := List.mem_iff_getElem.1 hx
  exact ⟨ys[n], List.mem_iff_getElem.2 ⟨n, by simp [hl, hn], List.getElem_zip⟩⟩

theorem Program.runInitializer_mem_deeds (hl : xs.length = (e.created r exceptions).length)
    {c : String} (hc : c ∈ e.initialized r exceptions) {m : MethodRef}
    (hm : p.initializer? c = some m) : .runInitializer m ∈ p.deeds e r supers exceptions xs := by
  unfold deeds
  rw [List.mem_append, List.mem_append, List.mem_append]
  by_cases hcreated : c ∈ (e.created r exceptions).map MethodRef.className
  · obtain ⟨k, hk, rfl⟩ := List.mem_map.1 hcreated
    obtain ⟨x, hx⟩ := exists_mem_zip hl hk
    exact .inl (.inl (.inr (runInitializer_mem_creationDeeds hm hx List.not_mem_nil)))
  · have hlog := (List.mem_append.1 hc).resolve_left hcreated
    have hlate : m ∈ p.lateInitializers e r exceptions :=
      List.mem_filterMap.2 ⟨c, List.mem_filter.2 ⟨hlog, decide_eq_true hcreated⟩, hm⟩
    exact .inl (.inr (List.mem_map_of_mem hlate))

end Deeds

theorem Subject.isSimple_keeps {s : Step} :
    ∀ {x : VarId} {ts : List ValueType}, s ∈ keeps x ts → s.isSimple ∧ s.deeds [] 0 = []
  | x, t :: ts, h => by
    unfold keeps at h
    split at h
    · rcases List.mem_cons.1 h with rfl | h
      · exact ⟨rfl, rfl⟩
      · exact isSimple_keeps h
    · exact isSimple_keeps h

theorem Blocks.creationPart {a : Abstraction} {g : FieldRef} {d : Draft} {p : Program} {pos : Nat}
    {e : Effects} {r : ReflectiveEffects} {exceptions : List MethodRef} {code : List Instruction}
    (h : Blocks a g d pos [] (Subject.creations p e r exceptions) code)
    (hr : r.initializedClasses.Nodup) :
    ∃ (xs : List VarId) (allocated : List (Place × Expr)),
      d.Does code (p.creationDeeds [] ((e.created r exceptions).zip xs) ++
        (p.lateInitializers e r exceptions).map .runInitializer) allocated ∧
      allocated.map Prod.snd = e.allocated r exceptions ∧
      allocated.filterMap Body.newObject? =
        xs.zip ((e.created r exceptions).map MethodRef.className) ∧
      xs.length = (e.created r exceptions).length := by
  obtain ⟨_, c₆, rfl, h, h₆⟩ := h.append
  obtain ⟨_, c₅, rfl, h, h₅⟩ := h.append
  obtain ⟨_, c₄, rfl, h, h₄⟩ := h.append
  obtain ⟨_, c₃, rfl, h, h₃⟩ := h.append
  obtain ⟨c₁, c₂, rfl, h₁, h₂⟩ := h.append
  simp only [List.foldl_append] at h₂ h₃ h₄ h₅ h₆
  -- `SameInitialized` is the invariant: the drafts know of the classes that have an initializer
  -- only, the deeds count all classes that have come up.
  have hs₀ : p.SameInitialized [] [] := fun _ _ => Iff.rfl
  obtain ⟨xs₁, all₁, hl₁, hd₁, hv₁, ho₁, hs₁⟩ := h₁.creations hs₀
  obtain ⟨⟨all₂, hd₂, hv₂, ho₂⟩, hm₂⟩ := h₂.arrays
  rw [hm₂] at h₃ h₄ h₅ h₆
  obtain ⟨xs₃, all₃, hl₃, hd₃, hv₃, ho₃, hs₃⟩ := h₃.creations hs₁
  obtain ⟨xs₄, all₄, hl₄, hd₄, hv₄, ho₄, hs₄⟩ := h₄.creations hs₃
  obtain ⟨⟨all₅, hd₅, hv₅, ho₅⟩, hm₅⟩ := h₅.arrays
  rw [hm₅] at h₆
  have hd₆ := h₆.initializations hs₄ hr
  have hclasses : ∀ {ks : List MethodRef} {xs : List VarId}, xs.length = ks.length →
      (ks.zip xs).map (fun k => k.1.className) = ks.map MethodRef.className := by
    intro ks xs hl
    calc (ks.zip xs).map (fun k => k.1.className)
        = ((ks.zip xs).map Prod.fst).map MethodRef.className := by rw [List.map_map]; rfl
      _ = ks.map MethodRef.className := by rw [List.map_fst_zip (Nat.le_of_eq hl.symm)]
  have hcreated : (e.created r exceptions).map MethodRef.className =
      e.objectCreations.map MethodRef.className ++ exceptions.map MethodRef.className ++
        r.objectCreations.map MethodRef.className := by
    simp [Effects.created]
  refine ⟨xs₁ ++ xs₃ ++ xs₄, all₁ ++ all₂ ++ all₃ ++ all₄ ++ all₅, ?_, ?_, ?_, ?_⟩
  · have hzip : (e.created r exceptions).zip (xs₁ ++ xs₃ ++ xs₄) =
        e.objectCreations.zip xs₁ ++ exceptions.zip xs₃ ++ r.objectCreations.zip xs₄ := by
      rw [Effects.created, List.zip_append (by simp [hl₁, hl₃]), List.zip_append hl₁.symm]
    rw [hzip, Program.creationDeeds_append, Program.creationDeeds_append, List.map_append,
      hclasses hl₁, hclasses hl₃, Program.lateInitializers, hcreated]
    have hall := ((((hd₁.append hd₂).append hd₃).append hd₄).append hd₅).append hd₆
    simpa only [List.append_nil, List.nil_append, List.append_assoc] using hall
  · simp only [List.map_append, hv₁, hv₂, hv₃, hv₄, hv₅]
    rfl
  · rw [hcreated, List.zip_append (by simp [hl₁, hl₃]), List.zip_append (by simp [hl₁])]
    simp only [List.filterMap_append, ho₁, ho₂, ho₃, ho₄, ho₅, List.append_nil]
  · simp [Effects.created, hl₁, hl₃, hl₄]

theorem Drafted.calls {o : Options} {p : Program} {s : Subject} {e : Effects}
    {supers exceptions : List MethodRef} {d : Draft} {code : List Instruction}
    (h : Drafted o p s e supers exceptions d code) :
    List.Forall₂ d.Performs (p.deeds e (.collect p o.log e) supers exceptions
      (d.body.objects.map Prod.fst)) d.body.invocations ∧
    d.body.allocations.map Prod.snd = e.allocated (.collect p o.log e) exceptions ∧
    d.body.objects.map Prod.snd =
      (e.created (.collect p o.log e) exceptions).map MethodRef.className := by
  obtain ⟨_, c₅, hc₅, hw, h₅⟩ := h.blocks.append
  obtain ⟨_, c₄, hc₄, hw, h₄⟩ := hw.append
  obtain ⟨_, c₃, hc₃, hw, h₃⟩ := hw.append
  obtain ⟨c₁, c₂, hc₂, h₁, h₂⟩ := hw.append
  obtain ⟨hd₁, hm₁⟩ := h₁.simple (by simp [Step.isSimple])
  obtain ⟨hd₂, hm₂⟩ := h₂.simple fun s hs => (Subject.isSimple_keeps hs).1
  have hd₄ := (h₄.simple (by
    simp only [Subject.calls, List.mem_append, List.mem_map]
    rintro s (⟨c, _, rfl⟩ | ⟨c, _, rfl⟩) <;> rfl)).1
  have hd₅ := (h₅.simple (by
    simp only [Subject.exits, List.mem_append, List.mem_map, List.mem_singleton]
    rintro s (⟨t, _, rfl⟩ | rfl) <;> rfl)).1
  rw [List.foldl_append, hm₂, hm₁] at h₃
  obtain ⟨xs, all, hd₃, hv, ho, hl⟩ :=
    h₃.creationPart (ReflectiveEffects.distinct_collect p o.log e).initializedClasses
  have hbind : d.Does (Subject.bindings 0 s.arrivals) [] [] := by
    refine .silent (fun i hi => ?_) fun i hi => ?_ <;>
      obtain ⟨y, source, rfl⟩ := Subject.eq_bind_of_mem_bindings hi <;> rfl
  have hkeeps : (Subject.keeps 0 s.incoming).flatMap (Step.deeds [] 0) = [] :=
    List.flatMap_eq_nil_iff.2 fun s hs => (Subject.isSimple_keeps hs).2
  have hexits : (s.exits e).flatMap (Step.deeds [] 0) = [] := by
    refine List.flatMap_eq_nil_iff.2 fun s hs => ?_
    simp only [Subject.exits, List.mem_append, List.mem_map, List.mem_singleton] at hs
    rcases hs with ⟨t, _, rfl⟩ | rfl <;> rfl
  have hcalls : (Subject.calls e (.collect p o.log e)).flatMap (Step.deeds [] 0) =
      (e.statements ++ e.results ++ (ReflectiveEffects.collect p o.log e).calls).map .call := by
    simp [Subject.calls, List.flatMap_map, Step.deeds, ← List.map_eq_flatMap]
  have hsupers : (supers.map Step.superCall).flatMap (Step.deeds [] 0) =
      supers.map (Deed.construct 0) := by
    simp [List.flatMap_map, Step.deeds, ← List.map_eq_flatMap]
  have hall := hbind.append ((((hd₁.append hd₂).append hd₃).append hd₄).append hd₅)
  rw [hsupers, hkeeps, hcalls, hexits, ← hc₂, ← hc₃, ← hc₄, ← hc₅, ← h.code_eq] at hall
  simp only [List.nil_append, List.append_nil] at hall
  have hobjects : d.body.objects =
      xs.zip ((e.created (.collect p o.log e) exceptions).map MethodRef.className) := by
    rw [← ho, ← hall.allocations]
    rfl
  have hfst : d.body.objects.map Prod.fst = xs := by
    rw [hobjects, List.map_fst_zip (by simp [hl])]
  refine ⟨?_, ?_, ?_⟩
  · rw [hfst, Program.deeds, List.append_assoc (supers.map _)]
    exact hall.invocations
  · rw [← hv, ← hall.allocations]
    rfl
  · rw [hobjects, List.map_snd_zip (by simp [hl])]

theorem Drafted.length_objects {o : Options} {p : Program} {s : Subject} {e : Effects}
    {supers exceptions : List MethodRef} {d : Draft} {code : List Instruction}
    (h : Drafted o p s e supers exceptions d code) :
    (d.body.objects.map Prod.fst).length =
      (e.created (.collect p o.log e) exceptions).length := by
  simpa using congrArg List.length h.calls.2.2

end Standin
