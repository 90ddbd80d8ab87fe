import Mathlib.Logic.Relation
import Standin.Proofs.CallEdges

/-!
# What a call can run in a class hierarchy

The hierarchy of a program may run in circles and may name classes that are not declared. A class is
below a name if the name can be reached from it (`Program.IsSubtype`), and the search upwards says
so (`isSubtype_iff`): where it passes over a class that it has been at, all that lies above the
class has been seen or is still pending (`Cleared`). An object takes a method from the first class
above its own that implements it (`Program.Inherits`), and the walk upwards finds that one
(`resolve?_eq_some`). Together they say what the edges and the nodes of the call graph are
(`callGraph_hierarchy`).
-/

namespace Standin

/-! ## Classes below a name -/

namespace Program

variable {p : Program}

/-- The name `b` is right above the class that has the name `a`. -/
def Extends (p : Program) (a b : String) : Prop :=
  ∃ c, p.class? a = some c ∧ b ∈ c.parents

/-- The name `b` can be reached from the name `a`, which may be the same. -/
abbrev IsSubtype (p : Program) : String → String → Prop :=
  Relation.ReflTransGen p.Extends

theorem extends_iff {c : p.Class} {b : String} : p.Extends c.1.name b ↔ b ∈ c.1.parents := by
  unfold Extends
  rw [class?_of_mem c.2]
  constructor
  · rintro ⟨d, hd, hb⟩
    exact Option.some.inj hd ▸ hb
  · exact fun hb => ⟨c.1, rfl, hb⟩

theorem name_of_index {ix : p.Index} {name : String} {c : p.Class} (h : ix.class? name = some c) :
    c.1.name = name := by
  have hc := ix.map_class? name
  rw [h, Option.map_some] at hc
  exact name_of_class? hc.symm

/-- The search for `ancestor` is done with the names in `seen`: none of them is `ancestor` or right
below it, and a declared class right above one of them is itself seen or pending. -/
structure Cleared (ancestor : String) (pending : List p.Class) (seen : Std.HashSet String) : Prop
    where
  notMem : ancestor ∉ seen
  above : ∀ a ∈ seen, ∀ b, p.Extends a b → b ≠ ancestor ∧
    (b ∈ seen ∨ p.class? b = none ∨ ∃ c ∈ pending, c.1.name = b)

namespace Cleared

variable {ancestor : String} {pending : List p.Class} {seen : Std.HashSet String} {c : p.Class}

/-- What was seen stays cleared where more is seen, and where the first class that was pending is
among it. -/
theorem above_of_subset (h : Cleared ancestor (c :: pending) seen) {pending' : List p.Class}
    {seen' : Std.HashSet String} (hseen : ∀ a ∈ seen, a ∈ seen') (hc : c.1.name ∈ seen')
    (hpending : pending ⊆ pending') :
    ∀ a ∈ seen, ∀ b, p.Extends a b → b ≠ ancestor ∧
      (b ∈ seen' ∨ p.class? b = none ∨ ∃ d ∈ pending', d.1.name = b) := by
  intro a ha b hab
  obtain ⟨hne, hb | hb | ⟨d, hd, rfl⟩⟩ := h.above a ha b hab
  · exact ⟨hne, .inl (hseen b hb)⟩
  · exact ⟨hne, .inr (.inl hb)⟩
  · rcases List.mem_cons.1 hd with rfl | hd
    · exact ⟨hne, .inl hc⟩
    · exact ⟨hne, .inr (.inr ⟨d, hpending hd, rfl⟩)⟩

/-- A pending class that was seen before need not be pending. -/
theorem drop (h : Cleared ancestor (c :: pending) seen) (hc : c.1.name ∈ seen) :
    Cleared ancestor pending seen where
  notMem := h.notMem
  above := h.above_of_subset (fun _ ha => ha) hc (List.Subset.refl _)

/-- A class is seen once the classes right above it are pending. -/
theorem expand (ix : p.Index) (h : Cleared ancestor (c :: pending) seen)
    (hname : c.1.name ≠ ancestor) (habove : ancestor ∉ c.1.parents) :
    Cleared ancestor ((c.1.parents.filterMap ix.class?).reverse ++ pending)
      (seen.insert c.1.name) where
  notMem := by simp [hname, h.notMem]
  above a ha b hab := by
    rcases Std.HashSet.mem_insert.1 ha with ha | ha
    · rw [← beq_iff_eq.1 ha, extends_iff] at hab
      refine ⟨fun hb => habove (hb ▸ hab), .inr ?_⟩
      rcases hb : ix.class? b with _ | d
      · exact .inl (by rw [← ix.map_class?, hb, Option.map_none])
      · have hd : d ∈ c.1.parents.filterMap ix.class? := List.mem_filterMap.2 ⟨b, hab, hb⟩
        exact .inr ⟨d, List.mem_append_left _ (List.mem_reverse.2 hd), name_of_index hb⟩
    · exact h.above_of_subset (fun _ hx => Std.HashSet.mem_insert.2 (.inr hx))
        Std.HashSet.mem_insert_self (List.subset_append_right _ _) a ha b hab

/-- Where a seen name leads to `ancestor`, a pending class does. -/
theorem exists_pending (h : Cleared ancestor pending seen) {a : String} (ha : a ∈ seen)
    (hs : p.IsSubtype a ancestor) : ∃ c ∈ pending, p.IsSubtype c.1.name ancestor := by
  induction hs using Relation.ReflTransGen.head_induction_on with
  | refl => exact absurd ha h.notMem
  | @head a b hab hs ih =>
    obtain ⟨hne, hb | hb | ⟨c, hc, rfl⟩⟩ := h.above a ha b hab
    · exact ih hb
    · -- The way does not end at `b`, so `b` is declared.
      rcases hs.cases_head with rfl | ⟨_, ⟨d, hd, _⟩, _⟩
      · exact absurd rfl hne
      · rw [hb] at hd
        cases hd
    · exact ⟨c, hc, hs⟩

end Cleared

/-- The search finds a way from a pending class if there is one. -/
theorem climbsTo_iff (ix : p.Index) {ancestor : String} {pending : List p.Class}
    {seen : Std.HashSet String} (h : Cleared ancestor pending seen) :
    ix.climbsTo ancestor pending seen ↔ ∃ c ∈ pending, p.IsSubtype c.1.name ancestor := by
  fun_induction ix.climbsTo ancestor pending seen with
  | case1 seen => simp
  | case2 seen c pending hname =>
    exact iff_of_true rfl ⟨c, List.mem_cons_self, hname ▸ .refl⟩
  | case3 seen c pending hname hseen ih =>
    rw [ih (h.drop hseen)]
    constructor
    · rintro ⟨d, hd, hs⟩
      exact ⟨d, List.mem_cons_of_mem _ hd, hs⟩
    · rintro ⟨d, hd, hs⟩
      rcases List.mem_cons.1 hd with rfl | hd
      · -- The class is passed over, but what it leads to is still to be reached from another.
        exact (h.drop hseen).exists_pending hseen hs
      · exact ⟨d, hd, hs⟩
  | case4 seen c pending hname hseen habove =>
    exact iff_of_true rfl ⟨c, List.mem_cons_self, .single (extends_iff.2 habove)⟩
  | case5 seen c pending hname hseen habove above ih =>
    have hcleared := h.expand ix hname habove
    rw [ih hcleared]
    constructor
    · rintro ⟨d, hd, hs⟩
      rcases List.mem_append.1 hd with hd | hd
      · obtain ⟨b, hb, hbd⟩ := List.mem_filterMap.1 (List.mem_reverse.1 hd)
        rw [name_of_index hbd] at hs
        exact ⟨c, List.mem_cons_self, .head (extends_iff.2 hb) hs⟩
      · exact ⟨d, List.mem_cons_of_mem _ hd, hs⟩
    · rintro ⟨d, hd, hs⟩
      rcases List.mem_cons.1 hd with rfl | hd
      · exact hcleared.exists_pending Std.HashSet.mem_insert_self hs
      · exact ⟨d, List.mem_append_right _ hd, hs⟩

/-- The search from one class tells whether a name can be reached, also where it runs in circles. -/
theorem isSubtype_iff (ix : p.Index) {c : p.Class} {ancestor : String} :
    ix.isSubtype c ancestor ↔ p.IsSubtype c.1.name ancestor := by
  have h : Cleared ancestor [c] ∅ := ⟨Std.HashSet.not_mem_empty, by simp⟩
  rw [Index.isSubtype, climbsTo_iff ix h]
  simp

end Program

/-! ## Classes above a class -/

/-- The method `m` is the class's own implementation for calls of `callee` on objects. Only the
first method with the callee's name and parameters counts. -/
def ClassDecl.Implements (c : ClassDecl) (callee : MethodRef) (m : MethodDecl) : Prop :=
  c.methodNamed? callee.name callee.params = some m ∧ m.isConcrete ∧ m.isStatic = false

namespace Program

variable {p : Program}

/-- The class `n` steps above another, if so many superclasses are declared. -/
def ancestor? (p : Program) (c : ClassDecl) : Nat → Option ClassDecl
  | 0 => some c
  | n + 1 => (p.superclass? c).bind fun d => p.ancestor? d n

/-- Objects of class `c` run the method `t` for a call of `callee`: the first class above `c` that
implements the callee declares `t`, and no class comes twice on the way up to it. -/
def Inherits (p : Program) (c : ClassDecl) (callee t : MethodRef) : Prop :=
  ∃ n e m, p.ancestor? c n = some e ∧ e.Implements callee m ∧ t = m.ref e.name ∧
    (∀ i < n, ∀ d, p.ancestor? c i = some d → ∀ m, ¬d.Implements callee m) ∧
    ∀ i j, i < j → j ≤ n → p.ancestor? c i ≠ p.ancestor? c j

theorem mem_classes_of_ancestor? {c d : ClassDecl} (hc : c ∈ p.classes) {n : Nat}
    (h : p.ancestor? c n = some d) : d ∈ p.classes := by
  induction n generalizing c with
  | zero => exact Option.some.inj h ▸ hc
  | succ n ih =>
    obtain ⟨e, he, hd⟩ := Option.bind_eq_some_iff.1 h
    obtain ⟨name, _, hfind⟩ := Option.bind_eq_some_iff.1 he
    exact ih (List.mem_of_find?_eq_some hfind) hd

theorem implementation?_eq_some {c : ClassDecl} {callee t : MethodRef} :
    implementation? c callee = some t ↔ ∃ m, c.Implements callee m ∧ t = m.ref c.name := by
  unfold implementation? ClassDecl.Implements
  rcases c.methodNamed? callee.name callee.params with _ | m
  · simp
  · simp only [Option.ite_none_right_eq_some, Bool.and_eq_true, Bool.not_eq_true',
      Option.some.injEq]
    constructor
    · rintro ⟨hm, rfl⟩
      exact ⟨m, ⟨rfl, hm⟩, rfl⟩
    · rintro ⟨_, ⟨rfl, hm⟩, rfl⟩
      exact ⟨hm, rfl⟩

theorem implementation?_eq_none {c : ClassDecl} {callee : MethodRef} :
    implementation? c callee = none ↔ ∀ m, ¬c.Implements callee m := by
  rw [Option.eq_none_iff_forall_ne_some]
  constructor
  · intro h m hm
    exact h _ (implementation?_eq_some.2 ⟨m, hm, rfl⟩)
  · intro h t ht
    obtain ⟨m, hm, _⟩ := implementation?_eq_some.1 ht
    exact h m hm

/-- The class `e` is `n` steps above `c`. None before it implements the callee, none up to it comes
twice, and none has a name in `seen`. -/
structure WayUp (p : Program) (callee : MethodRef) (seen : Std.HashSet String) (c : ClassDecl)
    (n : Nat) (e : ClassDecl) : Prop where
  last : p.ancestor? c n = some e
  bare : ∀ i < n, ∀ d, p.ancestor? c i = some d → implementation? d callee = none
  fresh : ∀ i ≤ n, ∀ d, p.ancestor? c i = some d → d.name ∉ seen
  distinct : ∀ i j, i < j → j ≤ n → p.ancestor? c i ≠ p.ancestor? c j

theorem ancestor?_succ {c d : ClassDecl} (hd : p.superclass? c = some d) (i : Nat) :
    p.ancestor? c (i + 1) = p.ancestor? d i := by
  rw [ancestor?, hd, Option.bind_some]

namespace WayUp

variable {callee : MethodRef} {seen : Std.HashSet String} {c d : p.Class} {n : Nat} {e : ClassDecl}

theorem zero (hseen : c.1.name ∉ seen) : p.WayUp callee seen c.1 0 c.1 where
  last := rfl
  bare i hi := absurd hi (Nat.not_lt_zero i)
  fresh i hi d hd := by
    rw [Nat.le_zero.1 hi] at hd
    exact Option.some.inj hd ▸ hseen
  distinct i j hij hj := absurd (Nat.lt_of_lt_of_le hij hj) (Nat.not_lt_zero i)

/-- A way up goes on from the superclass of its first class, and does not come back to that one. -/
theorem tail (h : p.WayUp callee seen c.1 (n + 1) e) (hd : p.superclass? c.1 = some d.1) :
    p.WayUp callee (seen.insert c.1.name) d.1 n e where
  last := (ancestor?_succ hd n).symm.trans h.last
  bare i hi x hx := h.bare (i + 1) (Nat.succ_lt_succ hi) x ((ancestor?_succ hd i).trans hx)
  fresh i hi x hx := by
    have hup : p.ancestor? c.1 (i + 1) = some x := (ancestor?_succ hd i).trans hx
    rw [Std.HashSet.mem_insert, beq_iff_eq, not_or]
    refine ⟨fun hname => ?_, h.fresh (i + 1) (Nat.succ_le_succ hi) x hup⟩
    -- Classes of one name are one class, which would come twice.
    have hxc : c.1 = x :=
      List.inj_on_of_nodup_map p.distinct c.2 (mem_classes_of_ancestor? d.2 hx) hname
    refine h.distinct 0 (i + 1) (Nat.succ_pos i) (Nat.succ_le_succ hi) ?_
    rw [hup, ← hxc, ancestor?]
  distinct i j hij hj := by
    rw [← ancestor?_succ hd, ← ancestor?_succ hd]
    exact h.distinct (i + 1) (j + 1) (Nat.succ_lt_succ hij) (Nat.succ_le_succ hj)

/-- A way up may begin one class lower, if that class is not on it. -/
theorem cons (h : p.WayUp callee (seen.insert c.1.name) d.1 n e)
    (hd : p.superclass? c.1 = some d.1) (hseen : c.1.name ∉ seen)
    (hnone : implementation? c.1 callee = none) : p.WayUp callee seen c.1 (n + 1) e := by
  have hfresh : ∀ i ≤ n, ∀ x, p.ancestor? d.1 i = some x → c.1.name ≠ x.name ∧ x.name ∉ seen := by
    intro i hi x hx
    have hx := h.fresh i hi x hx
    rwa [Std.HashSet.mem_insert, beq_iff_eq, not_or] at hx
  refine ⟨(ancestor?_succ hd n).trans h.last, ?_, ?_, ?_⟩
  · rintro (_ | i) hi x hx
    · exact Option.some.inj hx ▸ hnone
    · exact h.bare i (Nat.lt_of_succ_lt_succ hi) x (ancestor?_succ hd i ▸ hx)
  · rintro (_ | i) hi x hx
    · exact Option.some.inj hx ▸ hseen
    · exact (hfresh i (Nat.le_of_succ_le_succ hi) x (ancestor?_succ hd i ▸ hx)).2
  · rintro (_ | i) (_ | j) hij hj
    · exact absurd hij (Nat.lt_irrefl 0)
    · rw [ancestor?_succ hd]
      exact fun hc => (hfresh j (Nat.le_of_succ_le_succ hj) c.1 hc.symm).1 rfl
    · exact absurd hij (Nat.not_lt_zero _)
    · rw [ancestor?_succ hd, ancestor?_succ hd]
      exact h.distinct i j (Nat.lt_of_succ_lt_succ hij) (Nat.le_of_succ_le_succ hj)

end WayUp

/-- The walk finds the implementation at the end of a way up that keeps clear of `seen`. -/
theorem resolveFrom_eq_some (ix : p.Index) {callee t : MethodRef} {c : p.Class}
    {seen : Std.HashSet String} :
    ix.resolveFrom callee c seen = some t ↔
      ∃ n e, p.WayUp callee seen c.1 n e ∧ implementation? e callee = some t := by
  have hsuper : ∀ c, p.superclass? c.1 = (ix.superclass? c).map Subtype.val :=
    fun c => (ix.map_superclass? c).symm
  fun_induction ix.resolveFrom callee c seen with
  | case1 c seen hseen =>
    refine iff_of_false (Option.some_ne_none t).symm ?_
    rintro ⟨n, e, h, _⟩
    exact h.fresh 0 (Nat.zero_le n) c.1 rfl hseen
  | case2 c seen hseen t' ht' =>
    constructor
    · intro ht
      exact ⟨0, c.1, .zero hseen, ht'.trans ht⟩
    · rintro ⟨_ | n, e, h, ht⟩
      · rw [← ht', ← ht, Option.some.inj h.last]
      · rw [h.bare 0 (Nat.succ_pos n) c.1 rfl] at ht'
        cases ht'
  | case3 c seen hseen hnone d hd ih =>
    have hd : p.superclass? c.1 = some d.1 := by rw [hsuper, hd, Option.map_some]
    refine ih.trans ⟨?_, ?_⟩
    · rintro ⟨n, e, h, ht⟩
      exact ⟨n + 1, e, h.cons hd hseen hnone, ht⟩
    · rintro ⟨_ | n, e, h, ht⟩
      · rw [← Option.some.inj h.last, hnone] at ht
        cases ht
      · exact ⟨n, e, h.tail hd, ht⟩
  | case4 c seen hseen hnone hd =>
    refine iff_of_false (Option.some_ne_none t).symm ?_
    rintro ⟨_ | n, e, h, ht⟩
    · rw [← Option.some.inj h.last, hnone] at ht
      cases ht
    · have hlast := h.last
      rw [ancestor?, hsuper, hd] at hlast
      cases hlast

/-- An object runs what it inherits, and nothing if the way up comes to a class twice before. -/
theorem resolve?_eq_some (ix : p.Index) {c : p.Class} {callee t : MethodRef} :
    ix.resolve? c callee = some t ↔ p.Inherits c.1 callee t := by
  rw [Index.resolve?, resolveFrom_eq_some]
  constructor
  · rintro ⟨n, e, h, ht⟩
    obtain ⟨m, hm, rfl⟩ := implementation?_eq_some.1 ht
    exact ⟨n, e, m, h.last, hm, rfl,
      fun i hi d hd => implementation?_eq_none.1 (h.bare i hi d hd), h.distinct⟩
  · rintro ⟨n, e, m, he, hm, rfl, hnone, hdistinct⟩
    refine ⟨n, e, ⟨he, ?_, ?_, hdistinct⟩, implementation?_eq_some.2 ⟨m, hm, rfl⟩⟩
    · exact fun i hi d hd => implementation?_eq_none.2 (hnone i hi d hd)
    · exact fun _ _ _ _ => Std.HashSet.not_mem_empty

/-! ## Dispatch -/

/-- An object that a call of `callee` may be made on runs `t` for it. -/
def MayRun (p : Program) (callee t : MethodRef) : Prop :=
  ∃ d ∈ p.classes, d.isInterface = false ∧ p.IsSubtype d.name callee.className ∧
    p.Inherits d callee t

theorem mem_dispatch (ix : p.Index) {callee t : MethodRef} :
    t ∈ ix.dispatch callee ↔
      p.MayRun callee t ∨ (∀ t', ¬p.MayRun callee t') ∧ t = callee := by
  have hmem : ∀ t, t ∈ addAllNew [] ((p.classes.attach.filter fun c => !c.1.isInterface &&
      ix.isSubtype c callee.className).filterMap fun c => ix.resolve? c callee) ↔
        p.MayRun callee t := by
    intro t
    simp only [mem_addAllNew, List.not_mem_nil, false_or, List.mem_filterMap, List.mem_filter,
      List.mem_attach, true_and, Bool.and_eq_true, Bool.not_eq_true', isSubtype_iff,
      resolve?_eq_some]
    constructor
    · rintro ⟨d, ⟨hi, hs⟩, ht⟩
      exact ⟨d.1, d.2, hi, hs, ht⟩
    · rintro ⟨d, hd, hi, hs, ht⟩
      exact ⟨⟨d, hd⟩, ⟨hi, hs⟩, ht⟩
  unfold Index.dispatch
  simp only
  split
  · next hnil =>
    rw [hnil] at hmem
    have hnone : ∀ t', ¬p.MayRun callee t' := fun t' ht' => List.not_mem_nil ((hmem t').2 ht')
    simp [hnone]
  · next targets hne =>
    rw [hmem]
    refine (or_iff_left fun h => hne ?_).symm
    exact List.eq_nil_iff_forall_not_mem.2 fun t' ht' => h.1 t' ((hmem t').1 ht')

/-- The method `t` is a target of a call: the callee itself, if the receiver's class does not count
or is not known to have an implementation, and otherwise what an object may run. -/
inductive Targets (p : Program) (i : Invocation) : MethodRef → Prop
  | named : i.dispatch ≠ .virtual → i.dispatch ≠ .interface → Targets p i i.callee
  | dispatched {t : MethodRef} : i.dispatch = .virtual ∨ i.dispatch = .interface →
    p.MayRun i.callee t → Targets p i t
  | unknown : i.dispatch = .virtual ∨ i.dispatch = .interface → (∀ t, ¬p.MayRun i.callee t) →
    Targets p i i.callee

theorem mem_targets_hierarchy {i : Invocation} {t : MethodRef} :
    t ∈ Resolution.hierarchy.targets p.index i ↔ p.Targets i t := by
  by_cases hd : i.dispatch = .virtual ∨ i.dispatch = .interface
  · have htargets : Resolution.hierarchy.targets p.index i = p.index.dispatch i.callee := by
      unfold Resolution.targets
      rcases hd with hd | hd <;> rw [hd]
    rw [htargets, mem_dispatch]
    constructor
    · rintro (ht | ⟨hnone, rfl⟩)
      · exact .dispatched hd ht
      · exact .unknown hd hnone
    · rintro (⟨hv, hi⟩ | ⟨_, ht⟩ | ⟨_, hnone⟩)
      · exact absurd hd (by simp [hv, hi])
      · exact .inl ht
      · exact .inr ⟨hnone, rfl⟩
  · obtain ⟨hv, hi⟩ := not_or.1 hd
    have htargets : Resolution.hierarchy.targets p.index i = [i.callee] := by
      unfold Resolution.targets
      cases h : i.dispatch <;> simp_all
    rw [htargets, List.mem_singleton]
    constructor
    · rintro rfl
      exact .named hv hi
    · rintro (_ | ⟨h, _⟩ | ⟨h, _⟩)
      · rfl
      · exact absurd h hd
      · rfl

/-- The method `m` is declared under the reference `r` and is implemented. -/
def HasImplemented (p : Program) (r : MethodRef) (m : MethodDecl) : Prop :=
  ∃ c ∈ p.classes, m ∈ c.methods ∧ m.isConcrete ∧ m.ref c.name = r

end Program

/-! ## The call graph -/

namespace CallGraph

theorem mem_nodes_addEdges (g : CallGraph) (caller : MethodRef) (callees : List MethodRef)
    (n : MethodRef) :
    n ∈ (g.addEdges caller callees).nodes ↔ n ∈ g.nodes ∨ ∃ t ∈ callees, n = caller ∨ n = t := by
  refine mem_foldl nodes (Q := fun t n => n = caller ∨ n = t) (fun g t n => ?_) callees g n
  simp only [addEdge, mem_addNew, or_assoc]

theorem mem_nodes_addMethod {p : Program} (ix : p.Index) (r : Resolution) (c : ClassDecl)
    (g : CallGraph) (m : MethodDecl) (n : MethodRef) :
    n ∈ (addMethod ix r c g m).nodes ↔ n ∈ g.nodes ∨ n = m.ref c.name ∨
      ∃ i ∈ m.body.elim [] Body.invocations, n ∈ r.targets ix i := by
  have hstep := fun g i n => mem_nodes_addEdges g (m.ref c.name) (r.targets ix i) n
  unfold addMethod
  simp only
  rw [mem_foldl nodes hstep]
  simp only [addNode, mem_addNew, or_assoc]
  refine or_congr_right ⟨?_, ?_⟩
  · rintro (h | ⟨i, hi, t, ht, h | rfl⟩)
    · exact .inl h
    · exact .inl h
    · exact .inr ⟨i, hi, ht⟩
  · rintro (h | ⟨i, hi, hn⟩)
    · exact .inl h
    · exact .inr ⟨i, hi, n, hn, .inr rfl⟩

/-- An edge leads from an implemented method to a target of a call in its body. -/
theorem mem_edges_iff {r : Resolution} {p : Program} {caller t : MethodRef} :
    (caller, t) ∈ (ofProgram r p).edges ↔ ∃ m, p.HasImplemented caller m ∧
      ∃ b, m.body = some b ∧ ∃ i ∈ b.invocations, t ∈ r.targets p.index i := by
  rw [mem_edges_ofProgram]
  constructor
  · rintro ⟨x, hx, rfl, ht⟩
    refine ⟨x.method, ⟨x.owner, hx.owner, List.mem_of_getElem? hx.method, hx.isConcrete, rfl⟩,
      x.body, hx.body, x.call, ?_, ht⟩
    exact List.mem_filterMap.2 ⟨x.instruction, List.mem_of_getElem? hx.instruction, hx.call⟩
  · rintro ⟨m, ⟨c, hc, hm, hconcrete, rfl⟩, b, hb, i, hi, ht⟩
    obtain ⟨j, hj⟩ := List.mem_iff_getElem?.1 hm
    obtain ⟨instr, hinstr, hcall⟩ := List.mem_filterMap.1 hi
    obtain ⟨k, hk⟩ := List.mem_iff_getElem?.1 hinstr
    exact ⟨⟨c, j, m, b, k, instr, i⟩, ⟨hc, hj, hconcrete, hb, hk, hcall⟩, rfl, ht⟩

/-- The nodes are the implemented methods and the targets of their calls. -/
theorem mem_nodes_ofProgram {r : Resolution} {p : Program} {n : MethodRef} :
    n ∈ (ofProgram r p).nodes ↔
      (∃ m, p.HasImplemented n m) ∨ ∃ caller, (caller, n) ∈ (ofProgram r p).edges := by
  have hclass := fun g (c : ClassDecl) n => mem_foldl nodes (mem_nodes_addMethod p.index r c)
    (c.methods.filter MethodDecl.isConcrete) g n
  have hnodes : n ∈ (ofProgram r p).nodes ↔ n ∈ empty.nodes ∨ ∃ c ∈ p.classes,
      ∃ m ∈ c.methods.filter MethodDecl.isConcrete, n = m.ref c.name ∨
        ∃ i ∈ m.body.elim [] Body.invocations, n ∈ r.targets p.index i := by
    rw [← mem_foldl nodes hclass]
    rfl
  constructor
  · intro hn
    rcases hnodes.1 hn with h | ⟨c, hc, m, hm, h⟩
    · cases h
    · obtain ⟨hm, hconcrete⟩ := List.mem_filter.1 hm
      have himpl : p.HasImplemented (m.ref c.name) m := ⟨c, hc, hm, hconcrete, rfl⟩
      rcases h with rfl | ⟨i, hi, ht⟩
      · exact .inl ⟨m, himpl⟩
      · rcases hb : m.body with _ | b
        · simp [hb] at hi
        · rw [hb] at hi
          exact .inr ⟨_, mem_edges_iff.2 ⟨m, himpl, b, hb, i, hi, ht⟩⟩
  · rintro (⟨m, c, hc, hm, hconcrete, rfl⟩ | ⟨caller, he⟩)
    · exact hnodes.2 (.inr ⟨c, hc, m, List.mem_filter.2 ⟨hm, hconcrete⟩, .inl rfl⟩)
    · exact ((ofProgram r p).closed _ he).2

end CallGraph

/-- The call graph over a class hierarchy, which may run in circles and name classes that are not
declared. -/
theorem callGraph_hierarchy (p : Program) :
    (∀ caller t, (caller, t) ∈ (CallGraph.ofProgram .hierarchy p).edges ↔
      ∃ m, p.HasImplemented caller m ∧
        ∃ b, m.body = some b ∧ ∃ i ∈ b.invocations, p.Targets i t) ∧
    ∀ n, n ∈ (CallGraph.ofProgram .hierarchy p).nodes ↔
      (∃ m, p.HasImplemented n m) ∨
        ∃ caller, (caller, n) ∈ (CallGraph.ofProgram .hierarchy p).edges := by
  refine ⟨fun caller t => ?_, fun n => CallGraph.mem_nodes_ofProgram⟩
  simp only [CallGraph.mem_edges_iff, Program.mem_targets_hierarchy]

end Standin
