import Mathlib.Data.List.Basic
import Standin.Body.Tidy

/-!
# What code does to its variables

What a variable of a body gets its value from (`Body.origins`), and what the body allocates
(`Body.allocations`), throws and returns. None of this depends on where branches lead or on
instructions that do nothing, so tidying changes no more of it than the names of the variables
(`Body.filterMap_code_tidy`), and it gives different variables different names
(`Body.renumbering_injective`) and keeps their types (`Body.typeOf?_tidy`).
-/

namespace Standin

/-- What a variable gets its value from. -/
inductive Origin
  | incoming (source : Incoming)
  | value (e : Expr)
deriving DecidableEq, Repr

/-- The origin under other names of the variables. -/
def Origin.mapVars (f : VarId → VarId) : Origin → Origin
  | incoming source => incoming source
  | value e => value (e.mapVars f)

namespace Instruction

/-- The variable that the instruction gives a value, and what it gets it from. -/
def origin? : Instruction → Option (VarId × Origin)
  | bind x source => some (x, .incoming source)
  | assign (.var x) e => some (x, .value e)
  | _ => none

/-- What the instruction gives the variable `x`. -/
def originOf? (x : VarId) (i : Instruction) : Option Origin :=
  match i.origin? with
  | some (y, o) => if y = x then some o else none
  | none => none

/-- The allocation that the instruction makes, and where its result goes. -/
def allocation? : Instruction → Option (Place × Expr)
  | assign dest (.new c) => some (dest, .new c)
  | assign dest (.newArray t lengths) => some (dest, .newArray t lengths)
  | _ => none

/-- The value that the instruction throws. -/
def thrown? : Instruction → Option Operand
  | throw v => some v
  | _ => none

/-- What the instruction returns, which may be no value. -/
def returned? : Instruction → Option (Option Operand)
  | ret v => some v
  | _ => none

variable (f : VarId → VarId) (g : Nat → Nat)

theorem mem_vars_of_origin? {i : Instruction} {x : VarId} {o : Origin}
    (h : i.origin? = some (x, o)) : x ∈ i.vars := by
  unfold origin? at h
  split at h
  · cases h
    simp [vars]
  · cases h
    simp [vars, Place.vars]
  · cases h

theorem originOf?_eq_some {i : Instruction} {x : VarId} {o : Origin} :
    i.originOf? x = some o ↔ i.origin? = some (x, o) := by
  unfold originOf?
  rcases i.origin? with _ | ⟨y, o'⟩
  · simp
  · by_cases hy : y = x <;> simp [hy]

theorem originOf?_eq_none {i : Instruction} {x : VarId} (h : x ∉ i.vars) :
    i.originOf? x = none := by
  rcases ho : i.originOf? x with _ | o
  · rfl
  · exact absurd (mem_vars_of_origin? (originOf?_eq_some.1 ho)) h

theorem originOf?_of_origin? {i : Instruction} (h : i.origin? = none) (x : VarId) :
    i.originOf? x = none := by
  simp [originOf?, h]

@[simp]
theorem vars_mapTarget (i : Instruction) : (i.mapTarget g).vars = i.vars := by
  cases i <;> rfl

@[simp]
theorem origin?_mapTarget (i : Instruction) : (i.mapTarget g).origin? = i.origin? := by
  cases i <;> rfl

@[simp]
theorem originOf?_mapTarget (x : VarId) (i : Instruction) :
    (i.mapTarget g).originOf? x = i.originOf? x := by
  cases i <;> rfl

@[simp]
theorem allocation?_mapTarget (i : Instruction) : (i.mapTarget g).allocation? = i.allocation? := by
  cases i <;> rfl

@[simp]
theorem invocation?_mapTarget (i : Instruction) : (i.mapTarget g).invocation? = i.invocation? := by
  cases i <;> rfl

@[simp]
theorem thrown?_mapTarget (i : Instruction) : (i.mapTarget g).thrown? = i.thrown? := by
  cases i <;> rfl

@[simp]
theorem returned?_mapTarget (i : Instruction) : (i.mapTarget g).returned? = i.returned? := by
  cases i <;> rfl

theorem vars_mapVars (i : Instruction) : (i.mapVars f).vars = i.vars.map f := by
  have hv : ∀ v : Operand, (v.mapVars f).vars = v.vars.map f := by
    intro v
    cases v <;> rfl
  have hvs : ∀ vs : List Operand,
      (vs.map (Operand.mapVars f)).flatMap Operand.vars = (vs.flatMap Operand.vars).map f := by
    intro vs
    simp only [List.flatMap_map, List.map_flatMap, hv]
  have hc : ∀ c : Invocation, (c.mapVars f).vars = c.vars.map f := by
    intro c
    simp only [Invocation.vars, Invocation.mapVars, hvs, List.map_append]
    cases c.receiver <;> rfl
  have hp : ∀ p : Place, (p.mapVars f).vars = p.vars.map f := by
    intro p
    cases p <;> simp [Place.mapVars, Place.vars, hv]
  have he : ∀ e : Expr, (e.mapVars f).vars = e.vars.map f := by
    intro e
    cases e <;> simp only [Expr.mapVars, Expr.vars, hv, hvs, hc, List.map_cons, List.map_nil,
      List.map_append]
  cases i with
  | assign dest value => simp only [mapVars, vars, hp, he, List.map_append]
  | invoke call => exact hc call
  | throw value => exact hv value
  | branch condition t => exact hv condition
  | ret value =>
    rcases value with _ | v
    · rfl
    · exact hv v
  | _ => rfl

theorem origin?_mapVars (i : Instruction) :
    (i.mapVars f).origin? = i.origin?.map fun (x, o) => (f x, o.mapVars f) := by
  rcases i with ⟨x, s⟩ | ⟨dest, e⟩ | c | v | ⟨c, t⟩ | t | v | _ <;> try rfl
  rcases dest with x | ⟨x, v⟩ | fd | ⟨x, fd⟩ <;> rfl

theorem allocation?_mapVars (i : Instruction) :
    (i.mapVars f).allocation? = i.allocation?.map fun (p, e) => (p.mapVars f, e.mapVars f) := by
  rcases i with ⟨x, s⟩ | ⟨dest, e⟩ | c | v | ⟨c, t⟩ | t | v | _ <;> try rfl
  cases e <;> rfl

theorem invocation?_mapVars (i : Instruction) :
    (i.mapVars f).invocation? = i.invocation?.map (Invocation.mapVars f) := by
  rcases i with ⟨x, s⟩ | ⟨dest, e⟩ | c | v | ⟨c, t⟩ | t | v | _ <;> try rfl
  cases e <;> rfl

theorem thrown?_mapVars (i : Instruction) :
    (i.mapVars f).thrown? = i.thrown?.map (Operand.mapVars f) := by
  cases i <;> rfl

theorem returned?_mapVars (i : Instruction) :
    (i.mapVars f).returned? = i.returned?.map (Option.map (Operand.mapVars f)) := by
  cases i <;> rfl

/-- A renumbering that tells `x` from the other variables of the instruction keeps what `x` gets. -/
theorem originOf?_mapVars {i : Instruction} {x : VarId} (hx : ∀ y ∈ i.vars, f y = f x → y = x) :
    (i.mapVars f).originOf? (f x) = (i.originOf? x).map (Origin.mapVars f) := by
  unfold originOf?
  rw [origin?_mapVars]
  rcases ho : i.origin? with _ | ⟨y, o⟩
  · rfl
  · by_cases hy : y = x
    · simp [hy]
    · have hf : f y ≠ f x := fun h => hy (hx y (mem_vars_of_origin? ho) h)
      simp [hy, hf]

end Instruction

/-! ## Renaming variables -/

theorem Operand.mapVars_congr {σ τ : VarId → VarId} {v : Operand} (h : ∀ x ∈ v.vars, σ x = τ x) :
    v.mapVars σ = v.mapVars τ := by
  cases v with
  | var x => exact congrArg Operand.var (h x List.mem_cons_self)
  | const c => rfl

theorem Operand.map_mapVars_congr {σ τ : VarId → VarId} {vs : List Operand}
    (h : ∀ x ∈ vs.flatMap Operand.vars, σ x = τ x) :
    vs.map (Operand.mapVars σ) = vs.map (Operand.mapVars τ) :=
  List.map_congr_left fun v hv =>
    Operand.mapVars_congr fun x hx => h x (List.mem_flatMap.2 ⟨v, hv, hx⟩)

theorem Invocation.mapVars_congr {σ τ : VarId → VarId} {i : Invocation}
    (h : ∀ x ∈ i.vars, σ x = τ x) : i.mapVars σ = i.mapVars τ := by
  have hr : i.receiver.map σ = i.receiver.map τ := by
    refine Option.map_congr fun x hx => h x ?_
    exact List.mem_append_left _ (Option.mem_toList.2 hx)
  have ha : i.args.map (Operand.mapVars σ) = i.args.map (Operand.mapVars τ) :=
    Operand.map_mapVars_congr fun x hx => h x (List.mem_append_right _ hx)
  rw [mapVars, mapVars, hr, ha]

theorem Place.mapVars_congr {σ τ : VarId → VarId} {p : Place} (h : ∀ x ∈ p.vars, σ x = τ x) :
    p.mapVars σ = p.mapVars τ := by
  cases p with
  | var x => exact congrArg Place.var (h x List.mem_cons_self)
  | arrayElement x v =>
    have hv : v.mapVars σ = v.mapVars τ :=
      Operand.mapVars_congr fun y hy => h y (List.mem_cons_of_mem _ hy)
    rw [mapVars, mapVars, h x List.mem_cons_self, hv]
  | staticField f => rfl
  | instanceField x f => rw [mapVars, mapVars, h x List.mem_cons_self]

theorem Expr.mapVars_congr {σ τ : VarId → VarId} {e : Expr} (h : ∀ x ∈ e.vars, σ x = τ x) :
    e.mapVars σ = e.mapVars τ := by
  cases e with
  | use v | cast v t => rw [mapVars, mapVars, Operand.mapVars_congr h]
  | new c | staticField f => rfl
  | newArray t vs => rw [mapVars, mapVars, Operand.map_mapVars_congr h]
  | instanceField x f => rw [mapVars, mapVars, h x List.mem_cons_self]
  | arrayElement x v =>
    have hv : v.mapVars σ = v.mapVars τ :=
      Operand.mapVars_congr fun y hy => h y (List.mem_cons_of_mem _ hy)
    rw [mapVars, mapVars, h x List.mem_cons_self, hv]
  | invoke i => rw [mapVars, mapVars, Invocation.mapVars_congr h]
  | binary op v w =>
    have hv : v.mapVars σ = v.mapVars τ :=
      Operand.mapVars_congr fun y hy => h y (List.mem_append_left _ hy)
    have hw : w.mapVars σ = w.mapVars τ :=
      Operand.mapVars_congr fun y hy => h y (List.mem_append_right _ hy)
    rw [mapVars, mapVars, hv, hw]

theorem Instruction.mapVars_congr {σ τ : VarId → VarId} {i : Instruction}
    (h : ∀ x ∈ i.vars, σ x = τ x) : i.mapVars σ = i.mapVars τ := by
  cases i with
  | bind x s => rw [mapVars, mapVars, h x List.mem_cons_self]
  | assign p e =>
    have hp : p.mapVars σ = p.mapVars τ :=
      Place.mapVars_congr fun x hx => h x (List.mem_append_left _ hx)
    have he : e.mapVars σ = e.mapVars τ :=
      Expr.mapVars_congr fun x hx => h x (List.mem_append_right _ hx)
    rw [mapVars, mapVars, hp, he]
  | invoke i => rw [mapVars, mapVars, Invocation.mapVars_congr h]
  | throw v | branch v t => rw [mapVars, mapVars, Operand.mapVars_congr h]
  | goto t | nop => rfl
  | ret v =>
    cases v with
    | none => rfl
    | some v =>
      have hv : v.mapVars σ = v.mapVars τ := Operand.mapVars_congr h
      rw [mapVars, mapVars, Option.map_some, Option.map_some, hv]

theorem Instruction.mapVars_mapVars (σ τ : VarId → VarId) (i : Instruction) :
    (i.mapVars σ).mapVars τ = i.mapVars (τ ∘ σ) := by
  have hv : ∀ v : Operand, (v.mapVars σ).mapVars τ = v.mapVars (τ ∘ σ) := by
    intro v
    cases v <;> rfl
  have hc : ∀ c : Invocation, (c.mapVars σ).mapVars τ = c.mapVars (τ ∘ σ) := by
    intro c
    simp [Invocation.mapVars, Function.comp_def, hv]
  have hp : ∀ p : Place, (p.mapVars σ).mapVars τ = p.mapVars (τ ∘ σ) := by
    intro p
    cases p <;> simp [Place.mapVars, hv]
  have he : ∀ e : Expr, (e.mapVars σ).mapVars τ = e.mapVars (τ ∘ σ) := by
    intro e
    cases e <;> simp [Expr.mapVars, Function.comp_def, hv, hc]
  cases i <;> simp [mapVars, Function.comp_def, hv, hc, hp, he]

/-! ## Bodies -/

namespace Body

/-- Everything that a variable gets its value from, in the order of the code. -/
def origins (b : Body) (x : VarId) : List Origin :=
  b.code.filterMap (Instruction.originOf? x)

/-- The allocations of a body, in order. -/
def allocations (b : Body) : List (Place × Expr) :=
  b.code.filterMap Instruction.allocation?

/-- The variable that an allocation gives a new object, with the class of the object. -/
def newObject? : Place × Expr → Option (VarId × String)
  | (.var x, .new c) => some (x, c)
  | _ => none

/-- The variables that get a new object, with the classes of the objects. -/
def objects (b : Body) : List (VarId × String) :=
  b.allocations.filterMap newObject?

/-- The values that a body throws, in order. -/
def thrown (b : Body) : List Operand :=
  b.code.filterMap Instruction.thrown?

/-- What the returns of a body give back, in order. -/
def returned (b : Body) : List (Option Operand) :=
  b.code.filterMap Instruction.returned?

/-- Every variable of the code is declared. -/
def Scoped (b : Body) : Prop :=
  ∀ i ∈ b.code, ∀ x ∈ i.vars, x < b.declared.length

theorem mem_origins {b : Body} {x : VarId} {o : Origin} :
    o ∈ b.origins x ↔ ∃ i ∈ b.code, i.origin? = some (x, o) := by
  simp [origins, List.mem_filterMap, Instruction.originOf?_eq_some]

theorem objects_eq (b : Body) :
    b.objects = b.code.filterMap fun i => i.allocation?.bind newObject? := by
  rw [objects, allocations, List.filterMap_filterMap]

theorem newObject?_eq_some {i : Instruction} {x : VarId} {c : String} :
    i.allocation?.bind newObject? = some (x, c) ↔ i = .assign (.var x) (.new c) := by
  constructor
  · intro h
    rcases i with ⟨y, s⟩ | ⟨dest, e⟩ | k | v | ⟨v, t⟩ | t | v | _ <;> try cases h
    cases e <;> cases dest <;> cases h
    rfl
  · rintro rfl
    rfl

theorem mem_objects {b : Body} {x : VarId} {c : String} :
    (x, c) ∈ b.objects ↔ .assign (.var x) (.new c) ∈ b.code := by
  simp [objects_eq, List.mem_filterMap, newObject?_eq_some]

theorem count_objects_le (b : Body) (x : VarId) :
    (b.objects.map Prod.fst).count x ≤ (b.origins x).length := by
  rw [objects_eq, origins]
  induction b.code with
  | nil => simp
  | cons i code ih =>
    rcases ho : i.allocation?.bind newObject? with _ | ⟨y, c⟩
    · simp only [List.filterMap_cons, ho]
      refine Nat.le_trans ih ?_
      cases i.originOf? x <;> simp
    · cases newObject?_eq_some.1 ho
      simp only [List.filterMap_cons, ho, List.map_cons, List.count_cons]
      by_cases hy : y = x
      · simpa [Instruction.originOf?, Instruction.origin?, hy] using ih
      · simpa [Instruction.originOf?, Instruction.origin?, hy] using ih

theorem typeOf?_eq_none {b : Body} {x : VarId} : b.typeOf? x = none ↔ b.declared.length ≤ x := by
  simp [typeOf?]

theorem lt_of_typeOf? {b : Body} {x : VarId} {t : ValueType} (h : b.typeOf? x = some t) :
    x < b.declared.length := by
  by_contra hx
  rw [typeOf?_eq_none.2 (Nat.not_lt.1 hx)] at h
  cases h

theorem Scoped.origins_eq_nil {b : Body} (h : b.Scoped) {x : VarId}
    (hx : b.declared.length ≤ x) : b.origins x = [] := by
  refine List.filterMap_eq_nil_iff.2 fun i hi => Instruction.originOf?_eq_none fun hxi => ?_
  exact absurd (h i hi x hxi) (Nat.not_lt.2 hx)

end Body

/-! ## Tidying -/

theorem filterMap_survivors {β : Type} (f : Instruction → Option β) (hf : f .nop = none) :
    ∀ code, (survivors code).filterMap f = code.filterMap f
  | [] => rfl
  | [_] => rfl
  | i :: j :: rest => by
    rw [survivors]
    split
    · next hi =>
      have : i = .nop := by cases i <;> simp_all [Instruction.isNop]
      subst this
      rw [filterMap_survivors f hf (j :: rest), List.filterMap_cons_none hf]
    · rw [List.filterMap_cons, List.filterMap_cons, filterMap_survivors f hf (j :: rest)]

theorem flatMap_vars_survivors :
    ∀ code, (survivors code).flatMap Instruction.vars = code.flatMap Instruction.vars
  | [] => rfl
  | [_] => rfl
  | i :: j :: rest => by
    rw [survivors]
    split
    · next hi =>
      have : i.vars = [] := by cases i <;> simp_all [Instruction.isNop, Instruction.vars]
      rw [flatMap_vars_survivors (j :: rest), List.flatMap_cons (x := i), this, List.nil_append]
    · rw [List.flatMap_cons, List.flatMap_cons, flatMap_vars_survivors (j :: rest)]

theorem survivors_sublist : ∀ code, (survivors code).Sublist code
  | [] => .slnil
  | [_] => .refl _
  | i :: j :: rest => by
    rw [survivors]
    split
    · exact (survivors_sublist (j :: rest)).cons i
    · exact (survivors_sublist (j :: rest)).cons_cons i

theorem map_type_named :
    ∀ (seen : List Char) (ts : List ValueType), (Variable.named seen ts).map Variable.type = ts
  | _, [] => rfl
  | seen, t :: ts => by simp [Variable.named, map_type_named _ ts]

namespace Body

/-- The new number that tidying gives each variable. -/
def renumbering (b : Body) : VarId → VarId :=
  VarId.renumbered b.declared.length b.usedVars

@[simp]
theorem declared_dropNops (b : Body) : b.dropNops.declared = b.declared := by
  unfold dropNops
  simp only
  split <;> rfl

theorem filterMap_code_dropNops {β : Type} (b : Body) (f : Instruction → Option β)
    (hf : f .nop = none) (hg : ∀ g i, f (Instruction.mapTarget g i) = f i) :
    b.dropNops.code.filterMap f = b.code.filterMap f := by
  unfold dropNops
  simp only
  split
  · rfl
  · rw [List.filterMap_map, ← filterMap_survivors f hf b.code]
    exact congrArg (List.filterMap · _) (funext fun i => hg _ i)

theorem flatMap_vars_dropNops (b : Body) :
    b.dropNops.code.flatMap Instruction.vars = b.code.flatMap Instruction.vars := by
  unfold dropNops
  simp only
  split
  · rfl
  · simp only [List.flatMap_map, Instruction.vars_mapTarget]
    exact flatMap_vars_survivors b.code

@[simp]
theorem usedVars_dropNops (b : Body) : b.dropNops.usedVars = b.usedVars := by
  rw [usedVars, usedVars, flatMap_vars_dropNops, declared_dropNops]

@[simp]
theorem typeOf?_dropNops (b : Body) (x : VarId) : b.dropNops.typeOf? x = b.typeOf? x := by
  rw [typeOf?, typeOf?, declared_dropNops]

@[simp]
theorem renumbering_dropNops (b : Body) : b.dropNops.renumbering = b.renumbering := by
  rw [renumbering, renumbering, usedVars_dropNops, declared_dropNops]

theorem code_renumber (b : Body) :
    b.renumber.code = b.code.map (Instruction.mapVars b.renumbering) := rfl

/-- What can be read off the tidied code, if it depends neither on branch targets nor on
instructions that do nothing. -/
theorem filterMap_code_tidy {β : Type} (b : Body) (f : Instruction → Option β)
    (hf : f .nop = none) (hg : ∀ g i, f (Instruction.mapTarget g i) = f i) :
    b.tidy.code.filterMap f = b.code.filterMap (f ∘ Instruction.mapVars b.renumbering) := by
  rw [tidy, code_renumber, renumbering_dropNops, List.filterMap_map]
  refine filterMap_code_dropNops b _ hf fun g i => ?_
  have hi : (i.mapTarget g).mapVars b.renumbering = (i.mapVars b.renumbering).mapTarget g := by
    cases i <;> rfl
  rw [Function.comp_apply, hi, hg, Function.comp_apply]

theorem mem_usedVars {b : Body} {x : VarId} :
    x ∈ b.usedVars ↔ x < b.declared.length ∧ ∃ i ∈ b.code, x ∈ i.vars := by
  simp only [usedVars, List.mem_eraseDups, List.mem_filter, List.mem_flatMap, decide_eq_true_eq]
  exact and_comm

theorem Scoped.mem_usedVars {b : Body} (h : b.Scoped) {i : Instruction} {x : VarId}
    (hi : i ∈ b.code) (hx : x ∈ i.vars) : x ∈ b.usedVars :=
  Body.mem_usedVars.2 ⟨h i hi x hx, i, hi, hx⟩

theorem renumbering_of_mem {b : Body} {x : VarId} (hx : x ∈ b.usedVars) :
    b.renumbering x = b.usedVars.idxOf x := by
  simp [renumbering, VarId.renumbered, (mem_usedVars.1 hx).1]

theorem renumbering_injective {b : Body} {x y : VarId} (hx : x ∈ b.usedVars) (hy : y ∈ b.usedVars)
    (h : b.renumbering x = b.renumbering y) : x = y := by
  rw [renumbering_of_mem hx, renumbering_of_mem hy] at h
  have hxl := List.idxOf_lt_length_of_mem hx
  have hyl := List.idxOf_lt_length_of_mem hy
  calc x = b.usedVars[b.usedVars.idxOf x] := (List.getElem_idxOf hxl).symm
    _ = b.usedVars[b.usedVars.idxOf y] := by simp only [h]
    _ = y := List.getElem_idxOf hyl

theorem declared_renumber (b : Body) :
    b.renumber.declared.map (fun v => some v.type) = b.usedVars.map b.typeOf? := by
  rw [renumber, ← Function.comp_def some, ← List.map_map, map_type_named,
    List.map_filterMap_some_eq_filter_map_isSome]
  refine List.filter_eq_self.2 fun t ht => ?_
  obtain ⟨x, hx, rfl⟩ := List.mem_map.1 ht
  have := (mem_usedVars.1 hx).1
  simp [typeOf?, this]

theorem length_declared_renumber (b : Body) :
    b.renumber.declared.length = b.usedVars.length := by
  simpa using congrArg List.length (declared_renumber b)

theorem length_declared_tidy (b : Body) : b.tidy.declared.length = b.usedVars.length := by
  rw [tidy, length_declared_renumber, usedVars_dropNops]

theorem typeOf?_renumber {b : Body} {x : VarId} (hx : x ∈ b.usedVars) :
    b.renumber.typeOf? (b.renumbering x) = b.typeOf? x := by
  have hl := List.idxOf_lt_length_of_mem hx
  have h := congrArg (·[b.renumbering x]?) (declared_renumber b)
  simp only [List.getElem?_map, renumbering_of_mem hx, List.getElem?_eq_getElem hl,
    List.getElem_idxOf, Option.map_some] at h
  rw [renumbering_of_mem hx]
  unfold typeOf? at h ⊢
  rcases hv : b.renumber.declared[b.usedVars.idxOf x]? with _ | v
  · rw [hv] at h
    cases h
  · rw [hv] at h
    simpa using h

theorem typeOf?_tidy {b : Body} {x : VarId} (hx : x ∈ b.usedVars) :
    b.tidy.typeOf? (b.renumbering x) = b.typeOf? x := by
  rw [← usedVars_dropNops] at hx
  rw [tidy, ← renumbering_dropNops, typeOf?_renumber hx, typeOf?_dropNops]

theorem Scoped.origins_tidy {b : Body} (h : b.Scoped) {x : VarId} (hx : x ∈ b.usedVars) :
    b.tidy.origins (b.renumbering x) = (b.origins x).map (Origin.mapVars b.renumbering) := by
  unfold origins
  rw [filterMap_code_tidy b _ rfl fun g i => Instruction.originOf?_mapTarget g _ i,
    List.map_filterMap]
  refine List.filterMap_congr fun i hi => ?_
  exact Instruction.originOf?_mapVars _ fun y hy he =>
    renumbering_injective (h.mem_usedVars hi hy) hx he

theorem invocations_tidy (b : Body) :
    b.tidy.invocations = b.invocations.map (Invocation.mapVars b.renumbering) := by
  unfold invocations
  rw [filterMap_code_tidy b _ rfl Instruction.invocation?_mapTarget, List.map_filterMap]
  exact List.filterMap_congr fun i _ => Instruction.invocation?_mapVars _ i

theorem allocations_tidy (b : Body) :
    b.tidy.allocations =
      b.allocations.map fun (p, e) => (p.mapVars b.renumbering, e.mapVars b.renumbering) := by
  unfold allocations
  rw [filterMap_code_tidy b _ rfl Instruction.allocation?_mapTarget, List.map_filterMap]
  exact List.filterMap_congr fun i _ => Instruction.allocation?_mapVars _ i

theorem objects_tidy (b : Body) :
    b.tidy.objects = b.objects.map fun (x, c) => (b.renumbering x, c) := by
  unfold objects
  rw [allocations_tidy, List.filterMap_map, List.map_filterMap]
  refine List.filterMap_congr fun (dest, e) _ => ?_
  cases dest <;> cases e <;> rfl

theorem thrown_tidy (b : Body) :
    b.tidy.thrown = b.thrown.map (Operand.mapVars b.renumbering) := by
  unfold thrown
  rw [filterMap_code_tidy b _ rfl Instruction.thrown?_mapTarget, List.map_filterMap]
  exact List.filterMap_congr fun i _ => Instruction.thrown?_mapVars _ i

theorem returned_tidy (b : Body) :
    b.tidy.returned = b.returned.map (Option.map (Operand.mapVars b.renumbering)) := by
  unfold returned
  rw [filterMap_code_tidy b _ rfl Instruction.returned?_mapTarget, List.map_filterMap]
  exact List.filterMap_congr fun i _ => Instruction.returned?_mapVars _ i

/-- The instructions of tidied code that go nowhere else are the renamed ones of the code. -/
theorem mem_code_tidy {b : Body} {i : Instruction} (ht : i.target? = none) (hn : i ≠ .nop) :
    i ∈ b.tidy.code ↔ ∃ j ∈ b.code, j.mapVars b.renumbering = i := by
  let f : Instruction → Option Instruction := fun j => if j = i then some j else none
  have hg : ∀ g j, f (Instruction.mapTarget g j) = f j := by
    intro g j
    rcases j with ⟨x, s⟩ | ⟨dest, e⟩ | c | v | ⟨c, t⟩ | t | v | _ <;> try rfl
    · have h : ∀ t, Instruction.branch c t ≠ i := by
        intro t h
        simp [← h, Instruction.target?] at ht
      simp [f, Instruction.mapTarget, h]
    · have h : ∀ t, Instruction.goto t ≠ i := fun t h => by simp [← h, Instruction.target?] at ht
      simp [f, Instruction.mapTarget, h]
  have hf : f .nop = none := by simp [f, hn.symm]
  have hmem : ∀ l : List Instruction, i ∈ l ↔ i ∈ l.filterMap f := by
    intro l
    simp [f, List.mem_filterMap]
  rw [hmem, filterMap_code_tidy b f hf hg, List.mem_filterMap]
  simp only [f, Function.comp_apply, Option.ite_none_right_eq_some, Option.some.injEq]
  exact ⟨fun ⟨j, hj, h, _⟩ => ⟨j, hj, h⟩, fun ⟨j, hj, h⟩ => ⟨j, hj, h, h⟩⟩

theorem exists_of_mem_code_tidy {b : Body} {i : Instruction} (h : i ∈ b.tidy.code) :
    ∃ j ∈ b.code, ∃ g, i = (j.mapTarget g).mapVars b.renumbering := by
  rw [tidy, code_renumber, renumbering_dropNops] at h
  obtain ⟨j, hj, rfl⟩ := List.mem_map.1 h
  unfold dropNops at hj
  simp only at hj
  split at hj
  · refine ⟨j, hj, id, ?_⟩
    cases j <;> rfl
  · obtain ⟨k, hk, rfl⟩ := List.mem_map.1 hj
    exact ⟨k, (survivors_sublist _).subset hk, _, rfl⟩

theorem Scoped.tidy {b : Body} (h : b.Scoped) : b.tidy.Scoped := by
  intro i hi x hx
  obtain ⟨j, hj, g, rfl⟩ := exists_of_mem_code_tidy hi
  rw [Instruction.vars_mapVars, Instruction.vars_mapTarget] at hx
  obtain ⟨y, hy, rfl⟩ := List.mem_map.1 hx
  have hu := h.mem_usedVars hj hy
  rw [length_declared_tidy, renumbering_of_mem hu]
  exact List.idxOf_lt_length_of_mem hu

end Body

end Standin
