import Standin.Proofs.Hierarchy
import Standin.Proofs.Trace

/-!
# Methods that a call reaches in a class

A call reaches a method of a class only if it is the first one of the class with the name and the
parameters of the callee, so an override that stands behind another method of this kind is reached
only where nothing else is (`callGraph_override`). The walk upwards passes through superclasses, not
through interfaces, so a method that a class takes over from an interface is reached only where no
other class below the interface has an implementation (`callGraph_takenOver`).
-/

namespace Standin

namespace CallSite

/-- The method that makes the call. -/
def caller (x : CallSite) : MethodRef :=
  x.method.ref x.owner.name

theorem yields_hierarchy_iff {x : CallSite} {p : Program} (hx : x.In p)
    (hd : x.call.dispatch = .virtual ∨ x.call.dispatch = .interface) {t : MethodRef} :
    x.Yields .hierarchy p (x.caller, t) ↔
      p.MayRun x.call.callee t ∨ (∀ t', ¬p.MayRun x.call.callee t') ∧ t = x.call.callee := by
  have htargets : Resolution.hierarchy.targets p.index x.call = p.index.dispatch x.call.callee := by
    unfold Resolution.targets
    rcases hd with hd | hd <;> rw [hd]
  rw [← Program.mem_dispatch p.index, ← htargets]
  exact ⟨fun h => h.callee, fun h => ⟨hx, rfl, h⟩⟩

theorem Yields.mem_edges {x : CallSite} {r : Resolution} {p : Program} {e : MethodRef × MethodRef}
    (h : x.Yields r p e) : e ∈ (CallGraph.ofProgram r p).edges :=
  CallGraph.mem_edges_ofProgram.2 ⟨x, h⟩

end CallSite

theorem ClassDecl.Implements.agrees {c : ClassDecl} {callee : MethodRef} {m : MethodDecl}
    (h : c.Implements callee m) : m.name = callee.name ∧ m.params = callee.params := by
  simpa using List.find?_some h.1

namespace Program

variable {p : Program} {callee : MethodRef} {c d : ClassDecl} {m : MethodDecl}

/-- Objects run what their own class implements. -/
theorem mayRun_of_implements (hd : d ∈ p.classes) (hi : d.isInterface = false)
    (hs : p.IsSubtype d.name callee.className) (hm : d.Implements callee m) :
    p.MayRun callee (m.ref d.name) := by
  refine ⟨d, hd, hi, hs, 0, d, m, rfl, hm, rfl, ?_, ?_⟩
  · intro i hi
    exact absurd hi (Nat.not_lt_zero i)
  · intro i j hij hj
    omega

/-- What objects run is implemented by the class that it belongs to. -/
theorem MayRun.exists_implements {t : MethodRef} (h : p.MayRun callee t) (hd : d ∈ p.classes)
    (ht : t.className = d.name) : ∃ m, d.Implements callee m ∧ t = m.ref d.name := by
  obtain ⟨e, he, _, _, n, e', m, hup, hm, rfl, _⟩ := h
  have heq : e' = d := List.inj_on_of_nodup_map p.distinct (mem_classes_of_ancestor? he hup) hd ht
  subst heq
  exact ⟨m, hm, rfl⟩

/-! ## Overrides -/

/-- The class `d` below the class of the callee declares a method `m` of its own with the callee's
name, parameters and result, which objects can run. -/
structure Overrides (p : Program) (callee : MethodRef) (d : ClassDecl) (m : MethodDecl) : Prop where
  declared : d ∈ p.classes
  isClass : d.isInterface = false
  isSubtype : p.IsSubtype d.name callee.className
  method : m ∈ d.methods
  isConcrete : m.isConcrete
  isStatic : m.isStatic = false
  answers : m.answers callee

/-- An override is run if the first method of its class that has the callee's name and parameters
has the callee's result too. -/
theorem Overrides.mayRun_iff (h : p.Overrides callee d m) :
    p.MayRun callee (m.ref d.name) ↔ ∃ m', d.Implements callee m' ∧ m'.result = callee.result := by
  have hm : m.ref d.name = ⟨d.name, callee.name, callee.params, callee.result⟩ := by
    have ha := h.answers
    simp only [MethodDecl.answers, Bool.and_eq_true, decide_eq_true_eq] at ha
    simp [MethodDecl.ref, ha]
  rw [hm]
  constructor
  · intro hrun
    obtain ⟨m', hm', href⟩ := hrun.exists_implements h.declared rfl
    exact ⟨m', hm', (congrArg MethodRef.result href).symm⟩
  · rintro ⟨m', hm', hresult⟩
    have hrun := mayRun_of_implements h.declared h.isClass h.isSubtype hm'
    obtain ⟨hname, hparams⟩ := hm'.agrees
    rwa [MethodDecl.ref, hname, hparams, hresult] at hrun

end Program

/-- A call reaches an override exactly if the first method of its class that has the callee's name
and parameters can be run and has the callee's result too, or if the call finds nothing at all and
the override is the callee itself. -/
theorem callGraph_override {p : Program} {x : CallSite} {d : ClassDecl} {m : MethodDecl}
    (hx : x.In p) (hd : x.call.dispatch = .virtual ∨ x.call.dispatch = .interface)
    (hm : p.Overrides x.call.callee d m) :
    (x.Yields .hierarchy p (x.caller, m.ref d.name) ↔
      (∃ m', d.Implements x.call.callee m' ∧ m'.result = x.call.callee.result) ∨
        (∀ t, ¬p.MayRun x.call.callee t) ∧ d.name = x.call.callee.className) ∧
      ((∃ m', d.Implements x.call.callee m' ∧ m'.result = x.call.callee.result) →
        (x.caller, m.ref d.name) ∈ (CallGraph.ofProgram .hierarchy p).edges) := by
  have hyields := CallSite.yields_hierarchy_iff hx hd (t := m.ref d.name)
  have hcallee : m.ref d.name = x.call.callee ↔ d.name = x.call.callee.className := by
    constructor
    · exact fun h => congrArg MethodRef.className h
    · exact fun h => (MethodDecl.answers_iff h.symm).1 hm.answers
  rw [hm.mayRun_iff, hcallee] at hyields
  exact ⟨hyields, fun h => (hyields.2 (.inl h)).mem_edges⟩

namespace Sample

/-- A method that makes one call, on its parameter. -/
def main (receiver : String) (call : Invocation) : MethodDecl :=
  method "main" [.reference receiver] true (some
    ⟨[⟨"x", .reference receiver⟩], [.bind 0 (.parameter 0), .invoke call, .ret none], []⟩)

/-- The call of `main`. -/
def site (receiver : String) (call : Invocation) : CallSite :=
  ⟨library "Main" none [main receiver call], 0, main receiver call,
    ⟨[⟨"x", .reference receiver⟩], [.bind 0 (.parameter 0), .invoke call, .ret none], []⟩, 1,
    .invoke call, call⟩

/-- In a program with no other bodies, all edges come from the one call. -/
theorem yields_of_mem_edges {p : Program} (cs : List ClassDecl) (receiver : String)
    (call : Invocation) (hp : p.classes = cs ++ [library "Main" none [main receiver call]])
    (hcs : ∀ c ∈ cs, ∀ m ∈ c.methods, m.body = none) {r : Resolution} {e : MethodRef × MethodRef}
    (he : e ∈ (CallGraph.ofProgram r p).edges) : (site receiver call).Yields r p e := by
  obtain ⟨m, ⟨c, hc, hm, _, hcaller⟩, b, hb, i, hi, ht⟩ := CallGraph.mem_edges_iff.1 he
  rw [hp, List.mem_append, List.mem_singleton] at hc
  rcases hc with hc | rfl
  · rw [hcs c hc m hm] at hb
    cases hb
  · cases List.mem_singleton.1 hm
    cases hb
    cases List.mem_singleton.1 hi
    exact ⟨⟨by simp [hp, site], rfl, rfl, rfl, rfl, rfl⟩, hcaller.symm, ht⟩

/-- A method without parameters. -/
def getter (result : String) : MethodDecl :=
  ⟨"get", [], .value (.reference result), false, false, false, none⟩

/-- The override comes second; the first method has another result. -/
def derived : ClassDecl :=
  library "D" (some "A") [getter "Object", getter "String"]

/-- The call of the method that is overridden. -/
def getCall : Invocation :=
  ⟨.virtual, (getter "String").ref "A", some 0, []⟩

/-- A class that overrides a method behind another one with the same name and parameters. -/
def bridging : Program where
  classes := [library "A" none [getter "String"], derived, library "Main" none [main "A" getCall]]
  distinct := by decide

theorem site_in_bridging : (site "A" getCall).In bridging :=
  ⟨by decide, rfl, rfl, rfl, rfl, rfl⟩

theorem overrides_bridging : bridging.Overrides getCall.callee derived (getter "String") where
  declared := by decide
  isClass := rfl
  isSubtype := .single ⟨derived, by decide, by decide⟩
  method := by decide
  isConcrete := rfl
  isStatic := rfl
  answers := by decide

end Sample

theorem callGraph_override_bridging :
    (Sample.site "A" Sample.getCall).In Sample.bridging ∧
      Sample.bridging.Overrides Sample.getCall.callee Sample.derived (Sample.getter "String") ∧
      ((Sample.site "A" Sample.getCall).Yields .hierarchy Sample.bridging
          ((Sample.site "A" Sample.getCall).caller, (Sample.getter "String").ref "D") ↔
        (∃ m', Sample.derived.Implements Sample.getCall.callee m' ∧
            m'.result = Sample.getCall.callee.result) ∨
          (∀ t, ¬Sample.bridging.MayRun Sample.getCall.callee t) ∧ "D" = "A") :=
  ⟨Sample.site_in_bridging, Sample.overrides_bridging,
    (callGraph_override Sample.site_in_bridging (.inl rfl) Sample.overrides_bridging).1⟩

/-- An override that stands behind a method with another result is not reached. -/
theorem callGraph_override_unreached :
    ∃ (x : CallSite) (d : ClassDecl) (m : MethodDecl), x.In Sample.bridging ∧
      x.call.dispatch = .virtual ∧
      Sample.bridging.Overrides x.call.callee d m ∧
      (x.caller, m.ref d.name) ∉ (CallGraph.ofProgram .hierarchy Sample.bridging).edges := by
  refine ⟨_, Sample.derived, _, Sample.site_in_bridging, rfl, Sample.overrides_bridging, ?_⟩
  intro he
  have hyields := Sample.yields_of_mem_edges
    [Sample.library "A" none [Sample.getter "String"], Sample.derived] "A" Sample.getCall rfl
    (by decide) he
  rcases (CallSite.yields_hierarchy_iff Sample.site_in_bridging (.inl rfl)).1 hyields
    with hrun | ⟨_, hcallee⟩
  · obtain ⟨m', ⟨hfirst, _⟩, hresult⟩ := Sample.overrides_bridging.mayRun_iff.1 hrun
    cases hfirst
    exact absurd hresult (by decide)
  · exact absurd hcallee (by decide)

/-! ## Methods of interfaces -/

namespace Program

variable {p : Program} {callee : MethodRef} {c d : ClassDecl}

/-- The class `d` takes its method for the callee over from the interface `c`: no class above `d`
and no other interface declares one. -/
structure TakesOver (p : Program) (callee : MethodRef) (c d : ClassDecl) : Prop where
  interface : p.class? callee.className = some c
  isInterface : c.isInterface
  method : ∃ m ∈ c.methods, m.answers callee ∧ m.isConcrete ∧ m.isStatic = false
  declared : d ∈ p.classes
  isClass : d.isInterface = false
  isSubtype : p.IsSubtype d.name callee.className
  undeclared : ∀ n e, p.ancestor? d n = some e →
    e.methodNamed? callee.name callee.params = none
  alone : ∀ e ∈ p.classes, e.isInterface → e ≠ c →
    e.methodNamed? callee.name callee.params = none

/-- No class below that of the callee has an implementation, `d` left aside. -/
def NoneBeside (p : Program) (callee : MethodRef) (d : ClassDecl) : Prop :=
  ∀ e ∈ p.classes, e ≠ d → e.isInterface = false → p.IsSubtype e.name callee.className →
    ∀ t, ¬p.Inherits e callee t

/-- The walk upwards finds nothing for a class that takes its method over from an interface. -/
theorem TakesOver.not_inherits (h : p.TakesOver callee c d) (t : MethodRef) :
    ¬p.Inherits d callee t := by
  rintro ⟨n, e, m, he, hm, _⟩
  cases (h.undeclared n e he).symm.trans hm.1

theorem TakesOver.noneBeside_iff (h : p.TakesOver callee c d) :
    p.NoneBeside callee d ↔ ∀ t, ¬p.MayRun callee t := by
  constructor
  · rintro hothers t ⟨e, he, hclass, hsub, ht⟩
    by_cases hed : e = d
    · subst hed
      exact h.not_inherits t ht
    · exact hothers e he hed hclass hsub t ht
  · intro hrun e he _ hclass hsub t ht
    exact hrun t ⟨e, he, hclass, hsub, ht⟩

theorem exists_superclass_of_ancestor? {d e : ClassDecl} (hd : d ∈ p.classes) {n : Nat}
    (h : p.ancestor? d n = some e) : e = d ∨ ∃ d' ∈ p.classes, d'.superclass = some e.name := by
  induction n generalizing d with
  | zero => exact .inl (Option.some.inj h).symm
  | succ n ih =>
    obtain ⟨d', hd', he⟩ := Option.bind_eq_some_iff.1 h
    obtain ⟨name, hname, hfind⟩ := Option.bind_eq_some_iff.1 hd'
    rcases ih (List.mem_of_find?_eq_some hfind) he with rfl | hsuper
    · exact .inr ⟨d, hd, by rw [hname, name_of_class? hfind]⟩
    · exact .inr hsuper

/-- Objects run a method of an interface only below a class that has it as its superclass. -/
theorem MayRun.exists_superclass {t : MethodRef} (h : p.MayRun callee t)
    (hc : p.class? t.className = some c) (hi : c.isInterface) :
    ∃ d ∈ p.classes, d.superclass = some t.className := by
  obtain ⟨d, hd, hclass, _, n, e, m, he, _, rfl, _⟩ := h
  rcases exists_superclass_of_ancestor? hd he with rfl | hsuper
  · cases (class?_of_mem hd).symm.trans hc
    cases hclass.symm.trans hi
  · exact hsuper

end Program

/-- A call reaches the method that a class takes over from an interface exactly if no other class
below the interface has an implementation, or if the method is inherited from the interface as from
a superclass. -/
theorem callGraph_takenOver {p : Program} {x : CallSite} {c d : ClassDecl} (hx : x.In p)
    (hi : x.call.dispatch = .interface) (h : p.TakesOver x.call.callee c d) :
    (x.Yields .hierarchy p (x.caller, x.call.callee) ↔
      p.MayRun x.call.callee x.call.callee ∨ p.NoneBeside x.call.callee d) ∧
      (p.MayRun x.call.callee x.call.callee →
        ∃ e ∈ p.classes, e.superclass = some x.call.callee.className) ∧
      (p.NoneBeside x.call.callee d →
        (x.caller, x.call.callee) ∈ (CallGraph.ofProgram .hierarchy p).edges) := by
  have hyields := CallSite.yields_hierarchy_iff hx (.inr hi) (t := x.call.callee)
  rw [and_iff_left rfl, ← h.noneBeside_iff] at hyields
  exact ⟨hyields, fun hrun => hrun.exists_superclass h.interface h.isInterface,
    fun hnone => (hyields.2 (.inr hnone)).mem_edges⟩

namespace Sample

/-- A class that implements the interface `I`. -/
def taking (name : String) (methods : List MethodDecl) : ClassDecl :=
  ⟨name, none, ["I"], false, false, [], methods⟩

/-- The interface, whose method has an implementation. -/
def interface : ClassDecl :=
  ⟨"I", none, [], true, false, [], [method "run" [] false none]⟩

/-- The call of the method of the interface. -/
def runCall : Invocation :=
  ⟨.interface, ⟨"I", "run", [], .void⟩, some 0, []⟩

/-- An interface with a method that one class takes over and another one overrides. -/
def defaulting : Program where
  classes := [interface, taking "D" [], taking "E" [method "run" [] false none],
    library "Main" none [main "I" runCall]]
  distinct := by decide

theorem site_in_defaulting : (site "I" runCall).In defaulting :=
  ⟨by decide, rfl, rfl, rfl, rfl, rfl⟩

theorem takesOver_defaulting : defaulting.TakesOver runCall.callee interface (taking "D" []) where
  interface := by decide
  isInterface := rfl
  method := ⟨method "run" [] false none, by decide, by decide, rfl, rfl⟩
  declared := by decide
  isClass := rfl
  isSubtype := .single ⟨taking "D" [], by decide, by decide⟩
  undeclared := by
    rintro (_ | n) e he
    · cases he
      rfl
    · cases he
  alone := by decide

end Sample

theorem callGraph_takenOver_defaulting :
    (Sample.site "I" Sample.runCall).In Sample.defaulting ∧
      Sample.defaulting.TakesOver Sample.runCall.callee Sample.interface (Sample.taking "D" []) ∧
      ((Sample.site "I" Sample.runCall).Yields .hierarchy Sample.defaulting
          ((Sample.site "I" Sample.runCall).caller, Sample.runCall.callee) ↔
        Sample.defaulting.MayRun Sample.runCall.callee Sample.runCall.callee ∨
          Sample.defaulting.NoneBeside Sample.runCall.callee (Sample.taking "D" [])) :=
  ⟨Sample.site_in_defaulting, Sample.takesOver_defaulting,
    (callGraph_takenOver Sample.site_in_defaulting rfl Sample.takesOver_defaulting).1⟩

/-- A method that a class takes over from an interface is not reached if another class overrides
it. -/
theorem callGraph_takenOver_unreached :
    ∃ (x : CallSite) (c d : ClassDecl), x.In Sample.defaulting ∧ x.call.dispatch = .interface ∧
      Sample.defaulting.TakesOver x.call.callee c d ∧
      (x.caller, x.call.callee) ∉ (CallGraph.ofProgram .hierarchy Sample.defaulting).edges := by
  refine ⟨_, _, _, Sample.site_in_defaulting, rfl, Sample.takesOver_defaulting, ?_⟩
  intro he
  have hyields := Sample.yields_of_mem_edges
    [Sample.interface, Sample.taking "D" [],
      Sample.taking "E" [Sample.method "run" [] false none]] "I" Sample.runCall rfl (by decide) he
  rcases (CallSite.yields_hierarchy_iff Sample.site_in_defaulting (.inr rfl)).1 hyields
    with hrun | ⟨hnone, _⟩
  · obtain ⟨e, he, hsuper⟩ := hrun.exists_superclass (c := Sample.interface) (by decide) rfl
    revert e
    decide
  · refine hnone _ (Program.mayRun_of_implements
      (d := Sample.taking "E" [Sample.method "run" [] false none]) (by decide) rfl
      (.single ⟨_, Program.class?_of_mem (by decide), by decide⟩) ⟨rfl, rfl, rfl⟩)

end Standin
