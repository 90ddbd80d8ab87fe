import Standin.Proofs.Batch

/-!
# The report on the shared field

The types that a stand-in stores into the shared field can be read off its body
(`Body.storedTypes`, `flows_eq_storedTypes`). The report on a replaced library has all of them, and
besides them the types that methods stored whose plans have an error further on
(`Options.strayTypes`, `flowReport_replaceLibrary`): these methods keep their bodies, so no code of
the program need store such types.
-/

namespace Standin

open Draft

/-! ## Plans -/

namespace Step

variable {a : Abstraction} {g : FieldRef}

theorem mem_of_mem_completed {s : Step} {ss : List (Except SynthesisError Step)}
    (h : s ∈ completed ss) : .ok s ∈ ss := by
  fun_induction completed ss with
  | case1 => cases h
  | case2 => cases h
  | case3 s' rest ih =>
    rcases List.mem_cons.1 h with rfl | h
    · exact List.mem_cons_self
    · exact List.mem_cons_of_mem _ (ih h)

theorem completed_map_ok (steps : List Step) : completed (steps.map .ok) = steps := by
  induction steps with
  | nil => rfl
  | cons s steps ih => rw [List.map_cons, completed, ih]

/-- Only an incoming variable has to be looked up. -/
theorem stored?_of_prefix {ts ts' : List ValueType} (h : ts <+: ts') {s : Step}
    (hs : ∀ x, s = .keep x → x < ts.length) : s.stored? ts' = s.stored? ts := by
  cases s with
  | keep x =>
    obtain ⟨more, rfl⟩ := h
    exact List.getElem?_append_left (hs x rfl)
  | _ => rfl

/-- The types that a plan stores are those of the steps before its first error. -/
theorem flows_emitAll {ss : List (Except SynthesisError Step)} {d : Draft}
    (hs : ∀ x, .ok (.keep x) ∈ ss → x < d.types.length) :
    (emitAll a g d ss).2.flows =
      d.flows ++ a.flowing ((completed ss).filterMap (stored? d.types)) := by
  induction ss generalizing d with
  | nil => cases a <;> simp [emitAll, completed, Abstraction.flowing]
  | cons step ss ih =>
    cases step with
    | error e => cases a <;> simp [emitAll, completed, Abstraction.flowing]
    | ok s =>
      have hgrow : d.types <+: (s.emit a g d).types := (emit_spec s).grows.declared.map _
      have hkeep : ∀ x, .ok (.keep x) ∈ ss → x < d.types.length :=
        fun x hx => hs x (List.mem_cons_of_mem _ hx)
      have hrest : (completed ss).filterMap (stored? (s.emit a g d).types) =
          (completed ss).filterMap (stored? d.types) := by
        refine List.filterMap_congr fun s' hs' => stored?_of_prefix hgrow fun x hx => ?_
        exact hkeep x (mem_of_mem_completed (hx ▸ hs'))
      have hrun := ih (d := s.emit a g d) fun x hx =>
        Nat.lt_of_lt_of_le (hkeep x hx) hgrow.length_le
      rw [flows_emit, hrest, List.append_assoc] at hrun
      rw [emitAll, completed, hrun]
      cases a with
      | perUnit => rfl
      | shared f =>
        rw [List.filterMap_cons]
        rcases s.stored? d.types with _ | t <;> rfl

theorem isOk_of_emitAll {ss : List (Except SynthesisError Step)} {d : Draft} :
    (emitAll a g d ss).1.isOk = ss.all Except.isOk := by
  induction ss generalizing d with
  | nil => rfl
  | cons step ss ih =>
    cases step with
    | error e => rfl
    | ok s => exact ih

end Step

/-- A stand-in is made if no step of its plan is an error. -/
theorem Options.isOk_write (o : Options) (p : Program) (s : Subject) (e : Effects) :
    (o.write p s e).outcome.isOk = (s.plan p e (.collect p o.log e)).all Except.isOk := by
  rw [← Step.isOk_of_emitAll (a := o.abstraction) (g := o.guard) (d := Draft.start s)]
  simp only [write]
  rcases Step.emitAll o.abstraction o.guard (Draft.start s) (s.plan p e (.collect p o.log e)) with
    ⟨_ | _, _⟩ <;> rfl

theorem Options.standIn_of_subject {o : Options} {p : Program} {m : MethodRef} {s : Subject}
    {e : Effects} (hs : subject p m = .ok s) (he : s.effects = .ok e) :
    o.standIn p m = o.write p s e := by
  simp only [standIn, hs, he]

theorem Drafted.isOk_plan {o : Options} {p : Program} {s : Subject} {e : Effects}
    {supers exceptions : List MethodRef} {d : Draft} {code : List Instruction}
    (h : Drafted o p s e supers exceptions d code) :
    (s.plan p e (.collect p o.log e)).all Except.isOk := by
  rw [h.plan_eq, List.all_map, List.all_eq_true]
  exact fun _ _ => rfl

namespace Subject

theorem lt_of_keep_mem_plan {p : Program} {s : Subject} {e : Effects} {r : ReflectiveEffects}
    {x : VarId} (h : .ok (.keep x) ∈ s.plan p e r) : x < s.incoming.length := by
  have hcreate : ∀ k, p.creation k ≠ .ok (.keep x) :=
    fun k hk => nomatch Program.creation_eq_ok hk
  have harray : ∀ t : ValueType, t.arrayCreation ≠ .ok (.keep x) :=
    fun t ht => nomatch arrayCreation_eq_ok ht
  have hcall : ∀ (c : Call) (f : Call → Step), (∀ c, f c ≠ .keep x) →
      c.supported.map f ≠ .ok (.keep x) := by
    intro c f hf hc
    unfold Call.supported at hc
    split at hc
    · cases hc
    · exact hf c (Except.ok.inj hc)
  simp only [plan, List.mem_append, or_assoc] at h
  rcases h with h | h | h | h | h
  · unfold superSteps at h
    split at h
    · obtain ⟨c, _, hc⟩ := List.mem_map.1 h
      rcases hk : p.superConstructor c with e | k <;> rw [hk] at hc <;> cases hc
    · cases h
  · rw [keepSteps_eq] at h
    obtain ⟨y, hy, hxy⟩ := List.mem_map.1 h
    cases hxy
    obtain ⟨k, t, rfl, hk, _⟩ := keep_mem_keeps.1 hy
    rw [Nat.zero_add]
    exact (List.getElem?_eq_some_iff.1 hk).1
  · simp only [creationSteps, List.mem_append, List.mem_map, List.mem_flatMap, or_assoc] at h
    rcases h with ⟨k, _, h⟩ | ⟨t, _, h⟩ | ⟨c, _, h⟩ | ⟨k, _, h⟩ | ⟨t, _, h⟩ | ⟨c, _, h⟩
    · exact absurd h (hcreate k)
    · exact absurd h (harray t)
    · obtain ⟨k, _, hk⟩ := Program.exceptionCreation_eq_ok h
      cases hk
    · exact absurd h (hcreate k)
    · exact absurd h (harray t)
    · unfold Program.initialization at h
      split at h <;> simp at h
  · simp only [callSteps, List.mem_append, List.mem_map] at h
    rcases h with ⟨c, _, h⟩ | ⟨c, _, h⟩
    · exact absurd h (hcall c .statement fun _ => Step.noConfusion)
    · exact absurd h (hcall c .result fun _ => Step.noConfusion)
  · simp [exitSteps] at h

end Subject

namespace Options

/-- The types that go into the shared field for a method, whether it gets a stand-in or not. -/
theorem flows_standIn {o : Options} {p : Program} {m : MethodRef} {s : Subject} {e : Effects}
    (hs : subject p m = .ok s) (he : s.effects = .ok e) :
    (o.standIn p m).flows = o.abstraction.flowing
      ((Step.completed (s.plan p e (.collect p o.log e))).filterMap
        (Step.stored? s.incoming)) := by
  obtain ⟨ht, _⟩ := Draft.receive_run o.abstraction o.guard s.arrivals Draft.empty
  rw [← Draft.start_eq, Subject.map_snd_arrivals] at ht
  have htypes : (Draft.start s).types = s.incoming := ht
  have hkeep : ∀ x, .ok (.keep x) ∈ s.plan p e (.collect p o.log e) →
      x < (Draft.start s).types.length := fun x hx => htypes ▸ Subject.lt_of_keep_mem_plan hx
  have hflows := Step.flows_emitAll (a := o.abstraction) (g := o.guard) hkeep
  rw [flows_start, List.nil_append, htypes] at hflows
  rw [← hflows, standIn_of_subject hs he]
  rfl

end Options

/-! ## Bodies -/

/-- The variable that the instruction stores into the field. -/
def Instruction.storedInto? (f : FieldRef) : Instruction → Option VarId
  | assign (.staticField f') (.use (.var x)) => if f' = f then some x else none
  | _ => none

/-- The declared types of the variables that the body stores into the field, in order. -/
def Body.storedTypes (b : Body) (f : FieldRef) : List ValueType :=
  (b.code.filterMap (Instruction.storedInto? f)).filterMap b.typeOf?

theorem Instruction.storedInto?_assignVar (f : FieldRef) (x : VarId) (e : Expr) :
    (assign (.var x) e).storedInto? f = none := by
  cases e <;> rfl

theorem Instruction.storedInto?_invoke (f : FieldRef) (i : Invocation) :
    (invoke i).storedInto? f = none :=
  rfl

theorem Instruction.mem_vars_of_storedInto? {f : FieldRef} {i : Instruction} {x : VarId}
    (h : i.storedInto? f = some x) : x ∈ i.vars := by
  unfold storedInto? at h
  split at h
  · split at h
    · cases h
      simp [vars, Place.vars, Expr.vars, Operand.vars]
    · cases h
  · cases h

theorem Instruction.storedInto?_mapVars (f : FieldRef) (ρ : VarId → VarId) (i : Instruction) :
    (i.mapVars ρ).storedInto? f = (i.storedInto? f).map ρ := by
  cases i with
  | assign dest e =>
    cases dest with
    | staticField f' =>
      cases e with
      | use v =>
        cases v with
        | var x =>
          simp only [mapVars, Place.mapVars, Expr.mapVars, Operand.mapVars, storedInto?]
          split <;> rfl
        | const c => rfl
      | _ => rfl
    | _ => cases e <;> rfl
  | _ => rfl

theorem Body.Scoped.storedTypes_tidy {b : Body} (h : b.Scoped) (f : FieldRef) :
    b.tidy.storedTypes f = b.storedTypes f := by
  unfold storedTypes
  have hvars : b.tidy.code.filterMap (Instruction.storedInto? f) =
      (b.code.filterMap (Instruction.storedInto? f)).map b.renumbering := by
    rw [filterMap_code_tidy b _ rfl (by intro g i; cases i <;> rfl), List.map_filterMap]
    exact List.filterMap_congr fun i _ => i.storedInto?_mapVars f b.renumbering
  rw [hvars, List.filterMap_map]
  refine List.filterMap_congr fun x hx => ?_
  obtain ⟨i, hi, hx⟩ := List.mem_filterMap.1 hx
  exact typeOf?_tidy (h.mem_usedVars hi (Instruction.mem_vars_of_storedInto? hx))

section Blocks

variable {f g : FieldRef} {d : Draft} {pos : Nat} {seen : List String}

theorem Draft.Preparation.storedInto? {i : Instruction} (h : Preparation (.shared f) d i) :
    i.storedInto? f = none := by
  cases h <;> rfl

theorem filterMap_storedInto?_preparations {q : List Instruction}
    (hq : ∀ i ∈ q, Preparation (.shared f) d i) : q.filterMap (Instruction.storedInto? f) = [] :=
  List.filterMap_eq_nil_iff.2 fun i hi => (hq i hi).storedInto?

theorem filterMap_storedInto?_initializerCall (c : String) (init : Option MethodRef) :
    (initializerCall seen c init).filterMap (Instruction.storedInto? f) = [] := by
  unfold initializerCall
  split
  · rfl
  · cases init <;> rfl

theorem Draft.Keeps.storedInto? {x : VarId} {k : Instruction} (h : d.Keeps (.shared f) x k) :
    k.storedInto? f = some x := by
  obtain rfl : k = .assign (.staticField f) (.use (.var x)) := h
  exact if_pos rfl

/-- A block stores what its step says. -/
theorem Block.storedTypes {s : Step} {b : List Instruction}
    (hb : Block (.shared f) g d pos seen s b) :
    (b.filterMap (Instruction.storedInto? f)).filterMap d.typeOf? =
      (s.stored? d.types).toList := by
  cases hb with
  | superCall hq | statement hq | retValue hq =>
    simp [filterMap_storedInto?_preparations hq, Instruction.storedInto?, Step.stored?]
  | @keep x _ hk =>
    rw [Step.stored?, ← typeOf?_eq]
    rcases ht : d.typeOf? x with _ | t <;> simp [hk.storedInto?, ht]
  | create hx hq _ hk =>
    simp [List.filterMap_cons, filterMap_storedInto?_preparations hq,
      filterMap_storedInto?_initializerCall, Instruction.storedInto?_assignVar,
      Instruction.storedInto?_invoke, hk.storedInto?, hx, Step.stored?]
  | createArray hx hk =>
    simp [Instruction.storedInto?_assignVar, hk.storedInto?, hx, Step.stored?]
  | runInitializer => simp [filterMap_storedInto?_initializerCall, Step.stored?]
  | keptResult hq _ hres href hx hk =>
    simp [filterMap_storedInto?_preparations hq, Instruction.storedInto?_assignVar, hk.storedInto?,
      hx, Step.stored?, hres, href]
  | @droppedResult c _ _ hq _ hres =>
    have hnone : (Step.result c).stored? d.types = none := by
      simp only [Step.stored?]
      rcases hr : c.callee.result with _ | t
      · rfl
      · rw [hr] at hres
        exact if_neg (by simpa [ResultType.isReferenceLike, ResultType.type?] using hres)
    simp [hnone, filterMap_storedInto?_preparations hq, Instruction.storedInto?_invoke]
  | mayThrow hq _ _ hl =>
    rcases hl with rfl | rfl <;>
      simp [List.filterMap_cons, filterMap_storedInto?_preparations hq,
        Instruction.storedInto?, Step.stored?]
  | retVoid => rfl

theorem Blocks.storedTypes {steps : List Step} {code : List Instruction}
    (h : Blocks (.shared f) g d pos seen steps code) :
    (code.filterMap (Instruction.storedInto? f)).filterMap d.typeOf? =
      steps.filterMap (Step.stored? d.types) := by
  induction h with
  | nil => rfl
  | @cons _ _ s _ _ _ hb _ ih =>
    rw [List.filterMap_append, List.filterMap_append, hb.storedTypes, ih, List.filterMap_cons]
    rcases s.stored? d.types with _ | t <;> rfl

end Blocks

namespace Drafted

variable {o : Options} {p : Program} {s : Subject} {e : Effects}
  {supers exceptions : List MethodRef} {d : Draft} {code : List Instruction} {f : FieldRef}

theorem storedTypes (h : Drafted o p s e supers exceptions d code)
    (hf : o.abstraction = .shared f) :
    d.body.storedTypes f =
      (s.steps p e (.collect p o.log e) supers exceptions).filterMap (Step.stored? s.incoming) := by
  have hbind : (Subject.bindings 0 s.arrivals).filterMap (Instruction.storedInto? f) = [] := by
    refine List.filterMap_eq_nil_iff.2 fun i hi => ?_
    obtain ⟨y, source, rfl⟩ := Subject.eq_bind_of_mem_bindings hi
    rfl
  have hblocks := h.blocks
  rw [hf] at hblocks
  have hcode : d.body.code = Subject.bindings 0 s.arrivals ++ code := h.code_eq
  have htypes : d.body.typeOf? = d.typeOf? := rfl
  rw [Body.storedTypes, hcode, List.filterMap_append, hbind, List.nil_append, htypes,
    hblocks.storedTypes]
  refine List.filterMap_congr fun step hstep => Step.stored?_of_prefix h.types fun x hx => ?_
  obtain ⟨t, ht, _⟩ := Subject.keep_mem_steps.1 (hx ▸ hstep)
  exact (List.getElem?_eq_some_iff.1 ht).1

end Drafted

/-! ## Libraries -/

namespace Options

variable {o : Options} {p : Program} {m : MethodRef} {f : FieldRef}

/-- What a method stores on the way to its stand-in is what the stand-in stores. -/
theorem flows_eq_storedTypes {st : StandIn} (hf : o.abstraction = .shared f)
    (h : (o.standIn p m).outcome = .ok st) : (o.standIn p m).flows = st.body.storedTypes f := by
  obtain ⟨s, supers, exceptions, d, code, hs, he, hd, hbody⟩ := standIn_eq_ok h
  rw [flows_standIn hs he, hbody, hd.sound.inScope.storedTypes_tidy, hd.storedTypes hf, hd.plan_eq,
    Step.completed_map_ok, hf]
  rfl

/-- The types that a method stores before the first error of its plan, if there is one. -/
def strayTypes (o : Options) (p : Program) (m : MethodRef) : List ValueType :=
  match subject p m with
  | .error _ => []
  | .ok s =>
    match s.effects with
    | .error _ => []
    | .ok e =>
      let plan := s.plan p e (.collect p o.log e)
      if plan.all Except.isOk then []
      else (Step.completed plan).filterMap (Step.stored? s.incoming)

theorem strayTypes_of_ok {st : StandIn} (h : (o.standIn p m).outcome = .ok st) :
    o.strayTypes p m = [] := by
  obtain ⟨s, supers, exceptions, d, code, hs, he, hd, _⟩ := standIn_eq_ok h
  simp only [strayTypes, hs, he]
  exact if_pos hd.isOk_plan

theorem flows_of_error {e : SynthesisError} (hf : o.abstraction = .shared f)
    (h : (o.standIn p m).outcome = .error e) : (o.standIn p m).flows = o.strayTypes p m := by
  rcases hs : subject p m with err | s
  · simp only [standIn, strayTypes, hs]
  rcases he : s.effects with err | eff
  · simp only [standIn, strayTypes, hs, he]
  rw [flows_standIn hs he, hf]
  simp only [strayTypes, hs, he]
  -- The stand-in fails where its plan does.
  have hfail : ((s.plan p eff (.collect p o.log eff)).all Except.isOk) = false := by
    rw [standIn_of_subject hs he] at h
    rw [← isOk_write, h]
    rfl
  rw [if_neg (by simp [hfail])]
  rfl

theorem method?_replaceLibrary {st : StandIn} (hm : m ∈ p.libraryMethods)
    (h : (o.standIn p m).outcome = .ok st) :
    ((o.replaceLibrary p).program.method? m).bind MethodDecl.body = some st.body := by
  obtain ⟨s, _, _, _, _, hs, _⟩ := standIn_eq_ok h
  unfold subject Program.lookup at hs
  rcases hc : p.class? m.className with _ | c
  · simp [hc] at hs
  rcases hd : c.method? m with _ | decl
  · simp [hc, hd] at hs
  have hc' := Program.class?_of_map (classes_replaceLibrary o p) (fun _ => rfl) m.className
  rw [hc, Option.map_some] at hc'
  have hd' : (o.rewritten p p.libraryMethods c).method? m = _ :=
    method?_rewritten (Program.name_of_class? hc)
  simp only [hd, Option.map_some, if_pos hm, h, Except.toOption] at hd'
  simp only [Program.method?, Program.lookup, hc', hd']
  rfl

theorem mem_skipped {k : Skipped} :
    k ∈ (o.replaceLibrary p).report.skipped ↔
      k.method ∈ p.libraryMethods ∧ (o.standIn p k.method).outcome = .error k.error := by
  rw [report_replaceLibrary, reportOn, List.mem_filterMap]
  constructor
  · rintro ⟨m, hm, hk⟩
    unfold skip? at hk
    split at hk
    · cases hk
    · next e he =>
      cases hk
      exact ⟨hm, he⟩
  · rintro ⟨hm, he⟩
    exact ⟨k.method, hm, by simp [skip?, he]⟩

end Options

namespace Replacement

/-- The types that the new body of a method stores into the field; none if the method was
skipped. -/
def typesStoredBy (r : Replacement) (f : FieldRef) (m : MethodRef) : List ValueType :=
  if ∃ k ∈ r.report.skipped, k.method = m then []
  else ((r.program.method? m).bind MethodDecl.body).elim [] fun b => b.storedTypes f

end Replacement

theorem flows_standIn_eq {o : Options} {p : Program} {m : MethodRef} {f : FieldRef}
    (hf : o.abstraction = .shared f) (hm : m ∈ p.libraryMethods) :
    (o.standIn p m).flows =
      (o.replaceLibrary p).typesStoredBy f m ++ o.strayTypes p m := by
  unfold Replacement.typesStoredBy
  rcases h : (o.standIn p m).outcome with e | st
  · rw [Options.flows_of_error hf h, if_pos ⟨⟨m, e⟩, Options.mem_skipped.2 ⟨hm, h⟩, rfl⟩]
    rfl
  · have hkept : ¬∃ k ∈ (o.replaceLibrary p).report.skipped, k.method = m := by
      rintro ⟨k, hk, rfl⟩
      cases h.symm.trans (Options.mem_skipped.1 hk).2
    rw [if_neg hkept, Options.method?_replaceLibrary hm h, Options.strayTypes_of_ok h,
      Options.flows_eq_storedTypes hf h, List.append_nil]
    rfl

/-- The report on the shared field lists in increasing order the types that the new bodies store
into it and those that methods without a stand-in have left there. It lists no others than the
first exactly if whatever is left is also stored. -/
theorem flowReport_replaceLibrary {o : Options} {p : Program} {f : FieldRef}
    (hf : o.abstraction = .shared f) :
    let r := o.replaceLibrary p
    let stored := p.libraryMethods.flatMap (r.typesStoredBy f)
    let stray := p.libraryMethods.flatMap (o.strayTypes p)
    (flowReport r.flows).Pairwise (fun t t' => t.cmp t' = .lt) ∧
      (∀ t, t ∈ flowReport r.flows ↔ t ∈ stored ∨ t ∈ stray) ∧
      (flowReport r.flows = flowReport stored ↔ stray ⊆ stored) := by
  intro r stored stray
  have hmem : ∀ t, t ∈ r.flows ↔ t ∈ stored ∨ t ∈ stray := by
    intro t
    simp only [r, stored, stray, Options.flows_replaceLibrary, List.mem_flatMap]
    constructor
    · rintro ⟨m, hm, ht⟩
      rw [flows_standIn_eq hf hm, List.mem_append] at ht
      exact ht.imp (fun ht => ⟨m, hm, ht⟩) fun ht => ⟨m, hm, ht⟩
    · rintro (⟨m, hm, ht⟩ | ⟨m, hm, ht⟩) <;> refine ⟨m, hm, ?_⟩ <;>
        rw [flows_standIn_eq hf hm, List.mem_append]
      · exact .inl ht
      · exact .inr ht
  refine ⟨flowReport_increasing r.flows, fun t => mem_flowReport.trans (hmem t), ?_⟩
  rw [flowReport_eq_iff]
  constructor
  · exact fun h t ht => (h t).1 ((hmem t).2 (.inr ht))
  · exact fun h t => (hmem t).trans ⟨fun ht => ht.elim id (@h t), .inl⟩

theorem flowReport_replaceLibrary_linking :
    (Sample.options (.shared Sample.place)).abstraction = .shared Sample.place ∧
      let r := (Sample.options (.shared Sample.place)).replaceLibrary Sample.linking
      let stored := Sample.linking.libraryMethods.flatMap (r.typesStoredBy Sample.place)
      let stray := Sample.linking.libraryMethods.flatMap
        ((Sample.options (.shared Sample.place)).strayTypes Sample.linking)
      (flowReport r.flows).Pairwise (fun t t' => t.cmp t' = .lt) ∧
        (∀ t, t ∈ flowReport r.flows ↔ t ∈ stored ∨ t ∈ stray) ∧
        (flowReport r.flows = flowReport stored ↔ stray ⊆ stored) :=
  ⟨rfl, flowReport_replaceLibrary rfl⟩

/-- The parameter of a method that keeps its body is reported, though no new body stores it. -/
theorem flowReport_linking_stray :
    let r := (Sample.options (.shared Sample.place)).replaceLibrary Sample.linking
    let stored := Sample.linking.libraryMethods.flatMap (r.typesStoredBy Sample.place)
    .reference "B" ∈ flowReport r.flows ∧ .reference "B" ∉ flowReport stored ∧
      flowReport r.flows ≠ flowReport stored := by
  intro r stored
  have hflows : .reference "B" ∈ flowReport r.flows := mem_flowReport.2 (by decide)
  have hstored : .reference "B" ∉ flowReport stored := mt mem_flowReport.1 (by decide)
  exact ⟨hflows, hstored, fun h => hstored (h ▸ hflows)⟩

end Standin
