import Standin.Proofs.Closure
import Standin.Proofs.FirstOccurrence
import Standin.Proofs.Straight

/-!
# The order of a stand-in

A stand-in binds its incoming values, calls the constructor of the superclass if it has to, goes
straight through its code and returns at its end; only a throw that the guard does not pass over
ends it before. Every variable but the place of the body gets one value, and gets it before it is
read (`Body.Orderly`, `standIn_orderly`).
-/

namespace Standin

open Draft

namespace Draft

variable {a : Abstraction} {g : FieldRef} {d : Draft}

/-- Every variable of the draft has a value, and none was read before it had one. -/
structure Ready (d : Draft) : Prop where
  defines : Defines [] d.code
  valued : ∀ x < d.declared.length, x ∈ d.code.filterMap Instruction.written?

namespace Ready

theorem empty : Draft.empty.Ready :=
  ⟨trivial, fun x hx => absurd hx (Nat.not_lt_zero x)⟩

theorem push (h : d.Ready) {i : Instruction} (hi : ∀ x ∈ i.reads, x < d.declared.length) :
    (d.push i).Ready := by
  refine ⟨h.defines.append ⟨fun x hx => ?_, trivial⟩, fun x hx => ?_⟩
  · exact List.mem_append_left _ (h.valued x (hi x hx))
  · rw [Draft.push, List.filterMap_append]
    exact List.mem_append_left _ (h.valued x hx)

theorem introduce (h : d.Ready) (t : ValueType) {i : Instruction}
    (hw : i.written? = some d.declared.length) (hi : ∀ x ∈ i.reads, x < d.declared.length) :
    ((d.newVar t).1.push i).Ready := by
  refine ⟨(h.push hi).defines, fun x hx => ?_⟩
  have hcode : ((d.newVar t).1.push i).code = d.code ++ [i] := rfl
  rw [hcode, List.filterMap_append, List.mem_append]
  simp only [newVar, Draft.push, List.length_append, List.length_singleton] at hx
  rcases Nat.lt_succ_iff_lt_or_eq.1 hx with hx | rfl
  · exact .inl (h.valued x hx)
  · simp [hw]

theorem assignNew (h : d.Ready) (t : ValueType) {e : Expr}
    (he : ∀ x ∈ e.vars, x < d.declared.length) : (d.assignNew t e).1.Ready :=
  h.introduce t rfl he

theorem castTo (h : d.Ready) (hs : d.Sound a g) {r : VarId} (hr : d.representative = some r)
    (t : ValueType) : (d.castTo r t).1.Ready := by
  unfold Draft.castTo
  split
  · exact h
  · split
    · exact h
    · have hlt : ∀ x ∈ (Expr.cast (.var r) t).vars, x < d.declared.length := by
        intro x hx
        rw [List.mem_singleton.1 hx]
        exact (hs.representative r hr).lt
      have h' := h.assignNew t hlt
      exact ⟨h'.defines, h'.valued⟩

theorem representative (h : d.Ready) : (a.representative d).1.Ready := by
  rcases hd : d.representative with _ | r
  · have hlt : ∀ x ∈ a.firstValue.2.vars, x < d.declared.length := by
      cases a <;> simp [Abstraction.firstValue, Expr.vars, Operand.vars]
    have h' := h.assignNew a.firstValue.1 hlt
    rw [a.representative_of_none d hd]
    exact ⟨h'.defines, h'.valued⟩
  · rw [a.representative_of_some d hd]
    exact h

theorem representativeAs (h : d.Ready) (hs : d.Sound a g) (t : ValueType) :
    (a.representativeAs d t).1.Ready := by
  obtain ⟨hp, hr⟩ := a.representative_prepares g d
  exact h.representative.castTo (hp.sound hs) hr t

theorem valueOf (h : d.Ready) (hs : d.Sound a g) (t : ValueType) : (a.valueOf d t).1.Ready := by
  cases t with
  | primitive p => exact h
  | reference _ | array _ _ => exact h.representativeAs hs _

theorem arguments (h : d.Ready) (hs : d.Sound a g) (ts : List ValueType) :
    (a.arguments d ts).1.Ready := by
  induction ts generalizing d with
  | nil => exact h
  | cons t ts ih => exact ih (h.valueOf hs t) ((a.valueOf_prepares g d t).1.sound hs)

theorem construct (h : d.Ready) (hs : d.Sound a g) {x : VarId} (hx : x < d.declared.length)
    (m : MethodRef) : (a.construct d x m).Ready := by
  obtain ⟨hp, ha⟩ := a.arguments_prepares g d m.params
  refine (h.arguments hs m.params).push fun y hy => ?_
  rcases List.mem_cons.1 (hy : y ∈ x :: _) with rfl | hy
  · exact Nat.lt_of_lt_of_le hx hp.grows.length_le
  · exact (hp.sound hs).lt_of_supplied ha y hy

theorem invocation (h : d.Ready) (hs : d.Sound a g) (c : Call) : (a.invocation d c).1.Ready := by
  have harg := h.arguments hs c.callee.params
  unfold Abstraction.invocation
  simp only
  split
  · exact harg
  · exact harg.representativeAs ((a.arguments_prepares g d c.callee.params).1.sound hs) _

theorem store (h : d.Ready) {x : VarId} (hx : x < d.declared.length) : (a.store d x).Ready := by
  have hlt : ∀ y ∈ (Expr.use (.var x)).vars, y < d.declared.length := by
    simpa [Expr.vars, Operand.vars] using hx
  cases a with
  | shared f =>
    have h' := h.push (i := .assign (.staticField f) (.use (.var x))) hlt
    exact ⟨h'.defines, h'.valued⟩
  | perUnit =>
    rcases hd : d.representative with _ | r
    · have h' := h.assignNew .object hlt
      simp only [Abstraction.store, Abstraction.slot, hd]
      exact ⟨h'.defines, h'.valued⟩
    · simp only [Abstraction.store, Abstraction.slot, hd]
      exact h.push hlt

theorem guardVar (h : d.Ready) : (d.guardVar g).1.Ready := by
  unfold Draft.guardVar
  split
  · exact h
  · have h' := h.assignNew g.type (e := .staticField g) (by simp [Expr.vars])
    exact ⟨h'.defines, h'.valued⟩

theorem callInitializer (h : d.Ready) (c : String) (m : MethodRef) :
    (d.callInitializer c m).Ready := by
  unfold Draft.callInitializer markInitialized
  by_cases hc : c ∈ d.initialized
  · simpa only [hc, if_true, Bool.false_eq_true, if_false] using h
  · simp only [hc, if_true, if_false]
    have h' := h.push (i := .invoke ⟨.static, m, none, []⟩) (by
      simp [Instruction.reads, Instruction.vars, Invocation.vars])
    exact ⟨h'.defines, h'.valued⟩

theorem emit_create (h : d.Ready) (hs : d.Sound a g) (m : MethodRef) (c : String)
    (init : Option MethodRef) : ((Step.create m c init).emit a g d).Ready := by
  let d₁ := (d.assignNew (.reference c) (.new c)).1
  let x := (d.assignNew (.reference c) (.new c)).2
  have hs₁ : d₁.Sound a g := hs.assignNew _ (by simp [Expr.vars])
  have hx : x < d₁.declared.length := lt_assignNew _ _ _
  have h₂ := (h.assignNew (.reference c) (e := .new c) (by simp [Expr.vars])).construct hs₁ hx m
  obtain ⟨hg₂, _⟩ := construct_spec a g d₁ x m
  obtain ⟨hg₃, _⟩ := initialize_spec a g (a.construct d₁ x m) m c init
  have hx₃ := Nat.lt_of_lt_of_le hx (hg₂.trans hg₃).length_le
  cases init with
  | none => exact h₂.store hx₃
  | some k => exact (h₂.callInitializer c k).store hx₃

theorem emit_result (h : d.Ready) (hs : d.Sound a g) (c : Call) :
    ((Step.result c).emit a g d).Ready := by
  obtain ⟨hp, hi⟩ := invocation_spec a g d c
  have hlt := (hp.sound hs).lt_of_makes hi
  have h₁ := h.invocation hs c
  unfold Step.emit
  simp only
  split
  · rename_i t ht
    split
    · have h₂ := h₁.assignNew t (e := .invoke _) hlt
      exact h₂.store (lt_assignNew _ _ _)
    · exact h₁.push hlt
  · exact h₁.push hlt

theorem emit_mayThrow (h : d.Ready) (hs : d.Sound a g) (t : ValueType) :
    ((Step.mayThrow t).emit a g d).Ready := by
  obtain ⟨hp, ho⟩ := a.representativeAs_prepares g d t
  obtain ⟨hg, hy, _, _, hs₂⟩ := guardVar_spec a g (a.representativeAs d t).1
  have hs₂ := hs₂ (hp.sound hs)
  have h₂ : ((a.representativeAs d t).1.guardVar g).1.Ready := (h.representativeAs hs t).guardVar
  refine ((h₂.push ?_).push ?_).push ?_
  · rintro y hy'
    rw [List.mem_singleton.1 hy']
    exact Body.lt_of_typeOf? (b := Draft.body _) (hs₂.guard _ hy).1
  · rintro x hx
    rw [List.mem_singleton.1 hx]
    exact hs₂.lt_of_offers (hg.offers ho)
  · rintro x hx
    cases hx

theorem emit (h : d.Ready) (hs : d.Sound a g) {s : Step} (hin : s.Within d) :
    (s.emit a g d).Ready := by
  cases s with
  | superCall m => exact h.construct hs hin m
  | keep x => exact h.store hin
  | create m c init => exact h.emit_create hs m c init
  | createArray t =>
    have hlen : ∀ y ∈ t.arrayAllocation.vars, y < d.declared.length := by
      simp [ValueType.arrayAllocation, Expr.vars, Operand.vars]
    have h₁ := h.assignNew t hlen
    exact h₁.store (lt_assignNew d t t.arrayAllocation)
  | runInitializer c m => exact h.callInitializer c m
  | statement c =>
    obtain ⟨hp, hi⟩ := invocation_spec a g d c
    exact (h.invocation hs c).push ((hp.sound hs).lt_of_makes hi)
  | result c => exact h.emit_result hs c
  | mayThrow t => exact h.emit_mayThrow hs t
  | ret r =>
    cases r with
    | void => exact h.push (by simp [Instruction.reads, Instruction.vars])
    | value t =>
      obtain ⟨hp, hv⟩ := a.valueOf_prepares g d t
      exact (h.valueOf hs t).push ((hp.sound hs).lt_of_supplies hv)

theorem run {steps : List Step} (h : d.Ready) (hs : d.Sound a g)
    (hin : ∀ s ∈ steps, s.Within d) : (steps.foldl (Step.emit a g) d).Ready := by
  induction steps generalizing d with
  | nil => exact h
  | cons s steps ih =>
    have he := emit_spec (a := a) (g := g) (d := d) s
    have hs' := hin s List.mem_cons_self
    exact ih (h.emit hs hs') (he.sound hs hs') fun s' hs' =>
      (hin s' (List.mem_cons_of_mem _ hs')).mono he.grows

theorem start (s : Subject) : (Draft.start s).Ready := by
  rw [start_eq]
  suffices hrun : ∀ (vs : List (Incoming × ValueType)) (d : Draft), d.Ready →
      (vs.foldl receive d).Ready from hrun s.arrivals Draft.empty empty
  intro vs
  induction vs with
  | nil => exact fun d h => h
  | cons v vs ih => exact fun d h => ih _ (h.introduce v.2 rfl fun x hx => nomatch hx)

end Ready

end Draft

/-! ## Straight drafts -/

section Blocks

variable {a : Abstraction} {g : FieldRef} {d : Draft} {pos : Nat} {seen : List String}

theorem Draft.Preparation.fallsThrough {i : Instruction} (h : Preparation a d i) :
    i.fallsThrough := by
  cases h <;> rfl

theorem fallsThrough_of_initializerCall {c : String} {init : Option MethodRef} {i : Instruction}
    (hi : i ∈ initializerCall seen c init) : i.fallsThrough := by
  unfold initializerCall at hi
  split at hi
  · cases hi
  · obtain ⟨m, _, rfl⟩ := List.mem_map.1 hi
    rfl

theorem Draft.Keeps.fallsThrough {x : VarId} {k : Instruction} (hk : d.Keeps a x k) :
    k.fallsThrough := by
  obtain ⟨dest, rfl⟩ := hk.eq_assign
  rfl

theorem Block.straight {s : Step} {b : List Instruction} (hb : Block a g d pos seen s b)
    (hs : s.returns = []) : Straight pos b := by
  have hprep : ∀ {q : List Instruction} {i : Instruction}, (∀ i ∈ q, Preparation a d i) → i ∈ q →
      i.fallsThrough := fun hq hi => (hq _ hi).fallsThrough
  cases hb with
  | superCall hq | statement hq | droppedResult hq =>
    refine .of_fallsThrough fun i hi => ?_
    rcases List.mem_append.1 hi with hi | hi
    · exact hprep hq hi
    · rw [List.mem_singleton.1 hi]
      rfl
  | keep hk => exact .cons hk.fallsThrough .nil
  | create _ hq _ hk =>
    refine .of_fallsThrough fun i hi => ?_
    simp only [List.cons_append, List.append_assoc, List.mem_cons, List.mem_append,
      List.not_mem_nil, or_false] at hi
    rcases hi with rfl | hi | rfl | hi | rfl
    · rfl
    · exact hprep hq hi
    · rfl
    · exact fallsThrough_of_initializerCall hi
    · exact hk.fallsThrough
  | createArray _ hk => exact .cons rfl (.cons hk.fallsThrough .nil)
  | runInitializer => exact .of_fallsThrough fun i => fallsThrough_of_initializerCall
  | keptResult hq _ _ _ _ hk =>
    refine .append (.of_fallsThrough fun i => hprep hq) (.cons rfl (.cons hk.fallsThrough .nil))
  | @mayThrow t q l x y hq _ _ hl =>
    refine .append (.of_fallsThrough fun i hi => ?_) ?_
    · rcases List.mem_append.1 hi with hi | hi
      · exact hprep hq hi
      · rcases hl with rfl | rfl
        · cases hi
        · rw [List.mem_singleton.1 hi]
          rfl
    · rw [List.length_append, ← Nat.add_assoc]
      exact .guarded (.cons rfl .nil)
  | retVoid | retValue _ _ => cases hs

theorem Blocks.straight {steps : List Step} {code : List Instruction}
    (h : Blocks a g d pos seen steps code) (hs : ∀ s ∈ steps, s.returns = []) :
    Straight pos code := by
  induction h with
  | nil => exact .nil
  | cons hb _ ih =>
    exact (hb.straight (hs _ List.mem_cons_self)).append
      (ih fun s hs' => hs s (List.mem_cons_of_mem _ hs'))

theorem Block.straight_ret {t : ResultType} {b : List Instruction}
    (hb : Block a g d pos seen (.ret t) b) : ∃ q v, b = q ++ [.ret v] ∧ Straight pos q := by
  cases hb with
  | retVoid => exact ⟨[], none, rfl, .nil⟩
  | retValue hq _ => exact ⟨_, _, rfl, .of_fallsThrough fun i hi => (hq i hi).fallsThrough⟩

end Blocks

/-! ## The head of a body -/

/-- The incoming value that the instruction binds to a variable. -/
def Instruction.source? : Instruction → Option Incoming
  | bind _ source => some source
  | _ => none

theorem Instruction.source?_mapVars (f : VarId → VarId) (i : Instruction) :
    (i.mapVars f).source? = i.source? := by
  cases i <;> rfl

theorem Instruction.isBind_eq (i : Instruction) : i.isBind = i.source?.isSome := by
  cases i <;> rfl

namespace Body

variable {b : Body}

/-- What can be read off each instruction of tidied code, if it does not depend on targets. -/
theorem map_code_tidy {β : Type} (f : Instruction → β) (hn : .nop ∉ b.tidy.code)
    (hg : ∀ g i, f (Instruction.mapTarget g i) = f i) :
    b.tidy.code.map f =
      (b.code.filter fun i => !i.isNop).map (f ∘ Instruction.mapVars b.renumbering) := by
  let f' : Instruction → Option β := fun i => if i.isNop then none else some (f i)
  have htidy : b.tidy.code.filterMap f' = b.tidy.code.map f := by
    rw [← List.filterMap_eq_map]
    refine List.filterMap_congr fun i hi => ?_
    have hi' : i.isNop = false := by
      cases i with
      | nop => exact absurd hi hn
      | _ => rfl
    simp [f', hi']
  have hcode : b.code.filterMap (f' ∘ Instruction.mapVars b.renumbering) =
      (b.code.filter fun i => !i.isNop).map (f ∘ Instruction.mapVars b.renumbering) := by
    rw [← List.filterMap_eq_map, List.filterMap_filter]
    refine List.filterMap_congr fun i _ => ?_
    have hi : (i.mapVars b.renumbering).isNop = i.isNop := by cases i <;> rfl
    cases hi' : i.isNop <;> simp [f', hi, hi']
  rw [← htidy, ← hcode]
  refine filterMap_code_tidy b f' rfl fun g i => ?_
  have hi : (i.mapTarget g).isNop = i.isNop := by cases i <;> rfl
  simp only [f', hi, hg]

theorem receiver?_eq (b : Body) :
    b.receiver? = (b.code.filterMap fun
      | .bind dest .this => some dest
      | _ => none).head? :=
  List.head?_filterMap.symm

/-- The incoming values `sources` are bound by the first instructions, and the others bind none. -/
def Receives (b : Body) (sources : List Incoming) : Prop :=
  ∃ n, b.code.map Instruction.source? = sources.map some ++ List.replicate n none

theorem Receives.firstUnbound? {sources : List Incoming} (h : b.Receives sources)
    (hl : sources.length < b.code.length) : b.firstUnbound? = some sources.length := by
  obtain ⟨n, hn⟩ := h
  have hpos : 0 < n := by
    have := congrArg List.length hn
    simp only [List.length_map, List.length_append, List.length_replicate] at this
    omega
  have hidx : b.firstUnbound? = (b.code.map Instruction.source?).findIdx? Option.isNone := by
    rw [Body.firstUnbound?, List.findIdx?_map]
    congr 1
    funext i
    rw [Instruction.isBind_eq, Function.comp_apply, Option.not_isSome]
  have hnone : (sources.map some).findIdx? Option.isNone = none := by
    simp [List.findIdx?_eq_none_iff]
  obtain ⟨m, rfl⟩ : ∃ m, n = m + 1 := ⟨n - 1, by omega⟩
  rw [hidx, hn, List.findIdx?_append, hnone, List.replicate_succ, List.findIdx?_cons]
  simp

end Body

/-- The incoming values of a method, the receiver first. -/
def Subject.sources (s : Subject) (indices : List UInt16) : List Incoming :=
  (if s.method.isStatic then [] else [.this]) ++ indices.map .parameter

theorem Subject.map_fst_parameters :
    ∀ (i : Nat) (ts : List ValueType), (parameters i ts).map Prod.fst =
      (List.range' i ts.length).map fun j => .parameter (UInt16.ofNat j)
  | _, [] => rfl
  | i, t :: ts => by
    rw [parameters, List.map_cons, map_fst_parameters (i + 1) ts, List.length_cons,
      List.range'_succ, List.map_cons]

/-- Up to 65536 parameters have the numbers of their places. -/
theorem Subject.map_fst_arrivals {s : Subject} (h : s.method.params.length ≤ 65536) :
    ∃ indices : List UInt16, indices.map UInt16.toNat = List.range s.method.params.length ∧
      s.arrivals.map Prod.fst = s.sources indices := by
  refine ⟨(List.range s.method.params.length).map UInt16.ofNat, ?_, ?_⟩
  · rw [List.map_map]
    refine (List.map_congr_left fun i hi => ?_).trans (List.map_id _)
    have hlt : i < 65536 := Nat.lt_of_lt_of_le (List.mem_range.1 hi) h
    simp only [Function.comp_apply, UInt16.toNat_ofNat', id]
    omega
  · unfold arrivals sources
    rw [List.map_append, map_fst_parameters, List.map_map, ← List.range_eq_range']
    congr 1
    split <;> rfl

theorem Subject.filter_bindings (x : VarId) (vs : List (Incoming × ValueType)) :
    ((bindings x vs).filter fun i => !i.isNop) = bindings x vs := by
  refine List.filter_eq_self.2 fun i hi => ?_
  obtain ⟨y, source, rfl⟩ := eq_bind_of_mem_bindings hi
  rfl

/-! ## Drafts -/

theorem Program.params_of_superConstructor {p : Program} {c : String} {k : MethodRef}
    (h : p.superConstructor c = .ok k) : k.params = [] := by
  obtain ⟨_, d, m, hm, rfl⟩ := ref_of_declared h
  have hempty := List.find?_some hm
  exact List.isEmpty_iff.1 hempty

namespace Drafted

variable {o : Options} {p : Program} {s : Subject} {e : Effects}
  {supers exceptions : List MethodRef} {d : Draft} {code : List Instruction}

theorem ready (h : Drafted o p s e supers exceptions d code) : d.Ready := by
  obtain ⟨_, _, _, hsound⟩ := Draft.receive_run o.abstraction o.guard s.arrivals Draft.empty
  rw [← Draft.start_eq] at hsound
  rw [h.draft_eq]
  exact (Ready.start s).run (hsound (Draft.sound_empty _ _))
    (Subject.within_start h.superConstructors (length_start s))

theorem straight (h : Drafted o p s e supers exceptions d code) :
    ∃ init v, d.code = init ++ [.ret v] ∧ Straight 0 init := by
  have hsteps : s.steps p e (.collect p o.log e) supers exceptions =
      (supers.map Step.superCall ++ Subject.keeps 0 s.incoming ++
        Subject.creations p e (.collect p o.log e) exceptions ++
        Subject.calls e (.collect p o.log e) ++
        (e.throwables.filter ValueType.isReferenceLike).map .mayThrow) ++
      [.ret s.method.result] := by
    simp only [Subject.steps, Subject.exits, List.append_assoc]
  have hblocks := h.blocks
  rw [hsteps] at hblocks
  obtain ⟨inner, last, hcode, hinner, hlast⟩ := hblocks.append
  have hs : Straight s.arrivals.length inner := by
    refine hinner.straight fun y hy => ?_
    rcases List.mem_append.1 hy with hy | hy
    · exact (Subject.inner_steps p s e (.collect p o.log e) supers exceptions y hy).2
    · obtain ⟨t, _, rfl⟩ := List.mem_map.1 hy
      rfl
  cases hlast with
  | @cons _ _ _ _ b _ hb hnil =>
    cases hnil
    obtain ⟨q, v, rfl, hq⟩ := hb.straight_ret
    refine ⟨Subject.bindings 0 s.arrivals ++ (inner ++ q), v, ?_, ?_⟩
    · rw [h.code_eq, hcode]
      simp
    · refine .append (.of_fallsThrough fun i hi => ?_) ?_
      · obtain ⟨y, source, rfl⟩ := Subject.eq_bind_of_mem_bindings hi
        rfl
      · rw [Subject.length_bindings, Nat.zero_add]
        exact hs.append hq

/-- The constructor of the superclass is called right behind the incoming values. -/
theorem superCall_code (h : Drafted o p s e supers exceptions d code) {c : String}
    (hc : s.calledSuperclass? = some c) :
    ∃ k rest, p.superConstructor c = .ok k ∧ k.params = [] ∧
      code = .invoke ⟨.special, k, some 0, []⟩ :: rest := by
  have hsup := h.superConstructors
  rw [hc, Option.toList_some] at hsup
  cases hsup with
  | @cons _ k _ ks hk hnil =>
    cases hnil
    have hparams := Program.params_of_superConstructor hk
    obtain ⟨rest, hrest⟩ : ∃ rest, s.steps p e (.collect p o.log e) [k] exceptions =
        .superCall k :: rest := ⟨_, rfl⟩
    have hd := h.draft_eq
    rw [hrest, List.foldl_cons] at hd
    have hemit : (Step.superCall k).emit o.abstraction o.guard (Draft.start s) =
        (Draft.start s).push (.invoke ⟨.special, k, some 0, []⟩) := by
      simp only [Step.emit, Abstraction.construct, hparams, Abstraction.arguments]
    obtain ⟨_, ⟨more, hmore, _⟩, _⟩ := blocks_run (a := o.abstraction) (g := o.guard) rest
      ((Step.superCall k).emit o.abstraction o.guard (Draft.start s))
    obtain ⟨_, hstart, _⟩ := Draft.receive_run o.abstraction o.guard s.arrivals Draft.empty
    rw [← Draft.start_eq] at hstart
    refine ⟨k, more, hk, hparams, ?_⟩
    have hcode := h.code_eq
    rw [hd, hmore, hemit] at hcode
    have hcode' : (Draft.start s).code ++ [.invoke ⟨.special, k, some 0, []⟩] ++ more =
        Subject.bindings 0 s.arrivals ++ code := hcode
    have hbind : (Draft.start s).code = Subject.bindings 0 s.arrivals := hstart
    rw [hbind, List.append_assoc] at hcode'
    exact (List.append_cancel_left hcode').symm

theorem receives (h : Drafted o p s e supers exceptions d code) (hn : .nop ∉ d.body.tidy.code) :
    d.body.tidy.Receives (s.arrivals.map Prod.fst) := by
  have hbind : ∀ (x : VarId) (vs : List (Incoming × ValueType)),
      (Subject.bindings x vs).map Instruction.source? = (vs.map Prod.fst).map some := by
    intro x vs
    induction vs generalizing x with
    | nil => rfl
    | cons v vs ih =>
      rw [Subject.bindings, List.map_cons, ih]
      rfl
  refine ⟨(code.filter fun i => !i.isNop).length, ?_⟩
  have hcode : d.body.code = Subject.bindings 0 s.arrivals ++ code := h.code_eq
  have hsource : Instruction.source? ∘ Instruction.mapVars d.body.renumbering =
      Instruction.source? := funext fun i => i.source?_mapVars _
  rw [Body.map_code_tidy _ hn (by intro g i; cases i <;> rfl), hcode, List.filter_append,
    Subject.filter_bindings, List.map_append, hsource, hbind]
  congr 1
  refine List.eq_replicate_iff.2 ⟨List.length_map _, fun v hv => ?_⟩
  obtain ⟨i, hi, rfl⟩ := List.mem_map.1 hv
  have hnone : ∀ x source, i ≠ .bind x source := by
    rintro x source rfl
    exact h.blocks.bind_not_mem (List.mem_filter.1 hi).1
  cases i with
  | bind x source => exact absurd rfl (hnone x source)
  | _ => rfl

end Drafted

/-! ## Tidying -/

namespace Body

variable {b : Body}

/-- Every variable of a tidied body was one of the body. -/
theorem exists_of_lt_tidy {x : VarId} (hx : x < b.tidy.declared.length) :
    ∃ y ∈ b.usedVars, b.renumbering y = x := by
  rw [length_declared_tidy] at hx
  refine ⟨b.usedVars[x], List.getElem_mem hx, ?_⟩
  rw [renumbering_of_mem (List.getElem_mem hx)]
  exact (nodup_eraseDups _).idxOf_getElem x hx

theorem origins_ne_nil {x : VarId} (hx : x ∈ b.code.filterMap Instruction.written?) :
    b.origins x ≠ [] := by
  obtain ⟨i, hi, hw⟩ := List.mem_filterMap.1 hx
  obtain ⟨o, ho⟩ := Instruction.written?_eq_some.1 hw
  exact List.ne_nil_of_mem (mem_origins.2 ⟨i, hi, ho⟩)

theorem handlers_tidy (h : b.handlers = []) : b.tidy.handlers = [] := by
  unfold tidy renumber dropNops
  simp only
  split
  · exact h
  · simp [h]

end Body

namespace Drafted

variable {o : Options} {p : Program} {s : Subject} {e : Effects}
  {supers exceptions : List MethodRef} {d : Draft} {code : List Instruction}

theorem arrivals_eq_cons (hs : s.method.isStatic = false) :
    ∃ t rest, s.arrivals = (.this, t) :: rest := by
  unfold Subject.arrivals
  rw [hs]
  exact ⟨_, _, rfl⟩

theorem receiver?_tidy (h : Drafted o p s e supers exceptions d code)
    (hs : s.method.isStatic = false) : d.body.tidy.receiver? = some (d.body.renumbering 0) := by
  obtain ⟨t, rest, hrest⟩ := arrivals_eq_cons hs
  have hcode : d.body.code = .bind 0 .this :: (Subject.bindings 1 rest ++ code) := by
    have := h.code_eq
    rw [hrest] at this
    exact this
  rw [Body.receiver?_eq, Body.filterMap_code_tidy, hcode]
  · rfl
  · rfl
  · intro g i
    cases i <;> rfl

/-- In the tidied body too the constructor of the superclass is called right behind the incoming
values. -/
theorem superCall_tidy (h : Drafted o p s e supers exceptions d code) {c : String}
    (hc : s.calledSuperclass? = some c) (hn : .nop ∉ d.body.tidy.code) :
    ∃ k, p.superConstructor c = .ok k ∧ k.params = [] ∧
      d.body.tidy.code[s.arrivals.length]? =
        some (.invoke ⟨.special, k, some (d.body.renumbering 0), []⟩) := by
  obtain ⟨k, rest, hk, hparams, hcode⟩ := h.superCall_code hc
  have hmap := congrArg (·[s.arrivals.length]?) <|
    Body.map_code_tidy (Instruction.mapTarget fun _ => 0) hn (by intro g i; cases i <;> rfl)
  have hdcode : d.body.code = Subject.bindings 0 s.arrivals ++ code := h.code_eq
  have hlen : (Subject.bindings 0 s.arrivals).length ≤ s.arrivals.length :=
    Nat.le_of_eq (Subject.length_bindings 0 s.arrivals)
  simp only [hdcode, List.filter_append, Subject.filter_bindings, hcode, List.getElem?_map,
    List.getElem?_append_right hlen, Subject.length_bindings, Nat.sub_self] at hmap
  obtain ⟨i, hi, hit⟩ := Option.map_eq_some_iff.1 hmap
  refine ⟨k, hk, hparams, hi.trans (congrArg some ?_)⟩
  cases i <;> cases hit
  rfl

end Drafted

/-! ## Stand-ins -/

/-- The body of a stand-in for the method of `s`, in order. The variable `place` alone, if there is
one, may get several values. -/
structure Body.Orderly (b : Body) (p : Program) (s : Subject) (place : Option VarId) : Prop where
  handlers : b.handlers = []
  noNop : .nop ∉ b.code
  noGoto : ∀ t, .goto t ∉ b.code
  received : ∃ indices : List UInt16,
    indices.map UInt16.toNat = List.range s.method.params.length ∧ b.Receives (s.sources indices)
  superCall : ∀ c, s.method.isConstructor → s.method.isStatic = false →
    s.owner.superclass = some c →
    ∃ k x i, p.superConstructor c = .ok k ∧ k.className = c ∧ k.isConstructor ∧ k.params = [] ∧
      b.receiver? = some x ∧ b.firstUnbound? = some i ∧
      b.code[i]? = some (.invoke ⟨.special, k, some x, []⟩)
  returns : ∃ init v, b.code = init ++ [.ret v] ∧ ∀ w, .ret w ∉ init
  branches : ∀ k c t, b.code[k]? = some (.branch c t) →
    t = k + 2 ∧ t < b.code.length ∧ ∃ v, b.code[k + 1]? = some (.throw v)
  /-- A run takes fewer steps than there are instructions. -/
  halts : ∀ ks k, b.Run ks k → k < b.code.length ∧ ks.length < b.code.length
  /-- A run ends with the return or with a throw. -/
  ends : ∀ ks k, b.Run ks k → (∀ i l, b.code[k]? = some i → l ∉ i.next k) →
    (∃ v, b.code[k]? = some (.ret v)) ∨ ∃ v, b.code[k]? = some (.throw v)
  /-- What a run reads has been given a value on the way. -/
  assigned : ∀ ks k i, b.Run ks k → b.code[k]? = some i → ∀ x ∈ i.reads,
    ∃ j ∈ ks, ∃ i', b.code[j]? = some i' ∧ i'.written? = some x
  single : ∀ x < b.declared.length, place ≠ some x → (b.origins x).length = 1

/-- The variable that is the place itself, where `r` stands for all objects. -/
def Abstraction.ownPlace (r : Option VarId) : Abstraction → Option VarId
  | shared _ => none
  | perUnit => r

namespace Drafted

variable {o : Options} {p : Program} {s : Subject} {e : Effects}
  {supers exceptions : List MethodRef} {d : Draft} {code : List Instruction}

theorem single (h : Drafted o p s e supers exceptions d code) {x : VarId}
    (hx : x < d.declared.length) (hslot : o.abstraction.ownPlace d.representative ≠ some x) :
    (d.body.origins x).length = 1 := by
  have hne : (d.body.origins x).length ≠ 0 := fun h0 =>
    Body.origins_ne_nil (b := d.body) (h.ready.valued x hx) (List.eq_nil_of_length_eq_zero h0)
  by_cases hr : d.representative = some x
  · have hrep := h.sound.representative x hr
    cases ha : o.abstraction with
    | shared f =>
      rw [ha] at hrep
      rw [hrep.2]
      rfl
    | perUnit =>
      rw [ha] at hslot
      exact absurd hr hslot
  · have := h.sound.single x hr
    omega

theorem single_tidy (h : Drafted o p s e supers exceptions d code) {x : VarId}
    (hx : x < d.body.tidy.declared.length)
    (hslot : (o.abstraction.ownPlace d.representative).map d.body.renumbering ≠ some x) :
    (d.body.tidy.origins x).length = 1 := by
  obtain ⟨y, hy, rfl⟩ := Body.exists_of_lt_tidy hx
  rw [h.sound.inScope.origins_tidy hy, List.length_map]
  refine h.single (Body.mem_usedVars.1 hy).1 fun hs => hslot ?_
  rw [hs, Option.map_some]

theorem tidy_code (h : Drafted o p s e supers exceptions d code) :
    ∃ init v, d.body.tidy.code = init ++ [.ret v] ∧ Straight 0 init ∧ .nop ∉ d.body.tidy.code := by
  obtain ⟨init, v, hcode, hinit⟩ := h.straight
  obtain ⟨init', hcode', hinit', hnop⟩ := hinit.tidy (b := d.body) hcode
  refine ⟨init', _, hcode', hinit', ?_⟩
  rw [hcode']
  simpa using hnop

theorem orderly (h : Drafted o p s e supers exceptions d code)
    (hn : s.method.params.length ≤ 65536) :
    d.body.tidy.Orderly p s ((o.abstraction.ownPlace d.representative).map d.body.renumbering) := by
  obtain ⟨init, v, hcode, hstraight, hnop⟩ := h.tidy_code
  have hdefines : Defines [] d.body.tidy.code := Defines.tidy h.ready.defines
  obtain ⟨indices, hindices, hsources⟩ := Subject.map_fst_arrivals hn
  refine
    { handlers := Body.handlers_tidy rfl, noNop := hnop, noGoto := ?_,
      received := ⟨indices, hindices, hsources ▸ h.receives hnop⟩, superCall := ?_,
      returns := ⟨init, v, hcode, ?_⟩,
      branches := hcode ▸ hstraight.passesThrows, halts := ?_, ends := ?_, assigned := ?_,
      single := fun x => h.single_tidy }
  · intro t ht
    rw [hcode, List.mem_append] at ht
    rcases ht with ht | ht
    · rcases hstraight.cases_mem ht with hf | ⟨c, t', ht⟩ | ⟨w, ht⟩
      · cases hf
      · cases ht
      · cases ht
    · cases List.mem_singleton.1 ht
  · intro c hctor hstatic hsuper
    have hc : s.calledSuperclass? = some c :=
      Subject.calledSuperclass?_eq_some.2 ⟨hctor, hstatic, hsuper⟩
    obtain ⟨k, hk, hparams, hcall⟩ := h.superCall_tidy hc hnop
    obtain ⟨hname, hk'⟩ := Program.superConstructor_eq_ok hk
    refine ⟨k, _, _, hk, hname, hk', hparams, h.receiver?_tidy hstatic, ?_, hcall⟩
    have hlt := (List.getElem?_eq_some_iff.1 hcall).1
    have hfirst := (h.receives hnop).firstUnbound? (by rwa [List.length_map])
    rwa [List.length_map] at hfirst
  · intro w hw
    rcases hstraight.cases_mem hw with hf | ⟨c, t', ht⟩ | ⟨w, ht⟩
    · cases hf
    · cases ht
    · cases ht
  · intro ks k hrun
    obtain ⟨hk, hks, _⟩ := hstraight.passes hcode hrun
    exact ⟨hk, Nat.lt_of_le_of_lt hks hk⟩
  · intro ks k hrun hstop
    exact (hstraight.stops hcode hrun hstop).imp_left fun hv => ⟨_, hv⟩
  · intro ks k i hrun hi x hx
    exact hstraight.reads_written hcode hdefines hrun hi hx

end Drafted

/-- A stand-in is in order, and of its variables only the place of the body gets several values. -/
theorem standIn_orderly {o : Options} {p : Program} {m : MethodRef} {s : Subject} {st : StandIn}
    (hs : Options.subject p m = .ok s) (hn : s.method.params.length ≤ 65536)
    (h : (o.standIn p m).outcome = .ok st) :
    ∃ place, st.body.Orderly p s place ∧
      ∀ r, place = some r → o.abstraction = .perUnit ∧ o.abstraction.Represents st.body r := by
  obtain ⟨s', _, _, d, _, hs', he, hd, hbody⟩ := standIn_eq_ok h
  cases hs.symm.trans hs'
  refine ⟨_, hbody ▸ hd.orderly hn, fun r hr => ?_⟩
  obtain ⟨r, hr', rfl⟩ := Option.map_eq_some_iff.1 hr
  rw [hbody]
  unfold Abstraction.ownPlace at hr'
  split at hr'
  · cases hr'
  · next ha =>
    exact ⟨ha, (hd.sound.representative r hr').tidy hd.sound.inScope⟩

theorem standIn_orderly_sample :
    ∃ st s, Options.subject Sample.program Sample.constructor = .ok s ∧
      s.method.params.length ≤ 65536 ∧
      ((Sample.options .perUnit).standIn Sample.program Sample.constructor).outcome = .ok st ∧
      ∃ place, st.body.Orderly Sample.program s place ∧
        ∀ r, place = some r → (Sample.options .perUnit).abstraction = .perUnit ∧
          (Sample.options .perUnit).abstraction.Represents st.body r :=
  ⟨_, _, rfl, by decide, rfl, standIn_orderly (m := Sample.constructor) rfl (by decide) rfl⟩

end Standin
