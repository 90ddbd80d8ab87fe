import Mathlib.Logic.Relation
import Standin.Proofs.Flows
import Standin.Proofs.Independence
import Standin.Proofs.Trace

/-!
# Replacing a library in any order

What replacing a library comes to does not depend on the order of the work. The stand-ins may be
made one after another in any order, each in the program that has the earlier ones in it
(`Options.replaceInPlace`), or all at the same time, with one record of what flows into the shared
field (`Pool`, `Options.Advances`): the program, the counts and the methods that are skipped are the
same (`replaceLibrary_orderless`).
-/

namespace Standin

open Draft

/-- No class declares a signature twice. -/
def Program.Unambiguous (p : Program) : Prop :=
  ∀ c ∈ p.classes, (c.methods.map fun m => m.ref c.name).Nodup

instance (p : Program) : Decidable p.Unambiguous :=
  inferInstanceAs (Decidable (∀ c ∈ p.classes, (c.methods.map fun m => m.ref c.name).Nodup))

namespace Options

variable (o : Options) (p : Program)

/-- The entry of a method that has no stand-in. -/
def skip? (m : MethodRef) : Option Skipped :=
  match (o.standIn p m).outcome with
  | .ok _ => none
  | .error e => some ⟨m, e⟩

/-- The effects of a method that has a stand-in. -/
def effectsOf? (m : MethodRef) : Option Effects :=
  (o.standIn p m).outcome.toOption.map StandIn.effects

/-- The report on the methods `ms`. -/
def reportOn (ms : List MethodRef) : Report where
  synthesized := ms.countP fun m => (o.effectsOf? p m).isSome
  skipped := ms.filterMap (o.skip? p)
  readingArrays := ms.countP fun m => (o.effectsOf? p m).any Effects.readsArray
  writingArrays := ms.countP fun m => (o.effectsOf? p m).any Effects.writesArray

/-- The method with its stand-in, if it has one and is among `refs`. -/
def exchanged (refs : List MethodRef) (c : ClassDecl) (m : MethodDecl) : MethodDecl :=
  if m.ref c.name ∈ refs then
    match (o.standIn p (m.ref c.name)).outcome with
    | .ok st => { m with body := some st.body }
    | .error _ => m
  else m

/-- The stand-ins are made and put in their places one after another. -/
def replaceInPlace (ms : List MethodRef) : Replacement :=
  ms.foldl (fun r m => r.install m (o.standIn r.program m)) ⟨p, .empty, []⟩

variable {o p}

/-! ## Accounting -/

theorem report_install {refs : List MethodRef} {R : Replacement} (m : MethodRef)
    (hR : R.program.classes = p.classes.map (o.rewritten p refs)) :
    (R.install m (o.standIn p m)).report =
      R.report.record m ((o.standIn p m).outcome.map StandIn.effects) := by
  rcases h : (o.standIn p m).outcome with e | st
  · simp only [Replacement.install, h]
    rfl
  · obtain ⟨c, d, hl⟩ := lookup_of_standIn hR h
    simp only [Replacement.install, h, Program.replaceBody, hl]
    rfl

theorem report_foldl_install (ms : List MethodRef) {refs : List MethodRef} {R : Replacement}
    (hR : R.program.classes = p.classes.map (o.rewritten p refs)) :
    (ms.foldl (fun R m => R.install m (o.standIn p m)) R).report =
      { synthesized := R.report.synthesized + (o.reportOn p ms).synthesized
        skipped := R.report.skipped ++ (o.reportOn p ms).skipped
        readingArrays := R.report.readingArrays + (o.reportOn p ms).readingArrays
        writingArrays := R.report.writingArrays + (o.reportOn p ms).writingArrays } := by
  induction ms generalizing refs R with
  | nil => simp [reportOn]
  | cons m ms ih =>
    rw [List.foldl_cons, ih (classes_install m hR), report_install m hR]
    rcases h : (o.standIn p m).outcome with e | st
    · simp [reportOn, effectsOf?, skip?, h, Except.map, Except.toOption, Report.record]
    · simp only [reportOn, effectsOf?, skip?, h, Except.map, Except.toOption, Report.record,
        List.countP_cons, List.filterMap_cons, Option.map_some, Option.isSome_some,
        Option.any_some, if_true, Report.mk.injEq, true_and]
      refine ⟨by omega, ?_, ?_⟩
      · cases st.effects.readsArray <;> simp only [Bool.toNat_true, Bool.toNat_false, if_true,
          Bool.false_eq_true, if_false] <;> omega
      · cases st.effects.writesArray <;> simp only [Bool.toNat_true, Bool.toNat_false, if_true,
          Bool.false_eq_true, if_false] <;> omega

theorem flows_foldl_install (f : MethodRef → Synthesis) (ms : List MethodRef) (R : Replacement) :
    (ms.foldl (fun R m => R.install m (f m)) R).flows =
      R.flows ++ ms.flatMap fun m => (f m).flows := by
  induction ms generalizing R with
  | nil => simp
  | cons m ms ih => rw [List.foldl_cons, ih, List.flatMap_cons, ← List.append_assoc]; rfl

theorem classes_start (o : Options) (p : Program) :
    (⟨p, .empty, []⟩ : Replacement).program.classes = p.classes.map (o.rewritten p []) :=
  ((List.map_congr_left fun c _ => rewritten_nil c).trans (List.map_id _)).symm

theorem report_replaceLibrary (o : Options) (p : Program) :
    (o.replaceLibrary p).report = o.reportOn p p.libraryMethods := by
  refine (report_foldl_install p.libraryMethods (classes_start o p)).trans ?_
  simp [Report.empty]

theorem flows_replaceLibrary (o : Options) (p : Program) :
    (o.replaceLibrary p).flows = p.libraryMethods.flatMap fun m => (o.standIn p m).flows :=
  flows_foldl_install (o.standIn p) p.libraryMethods _

theorem isSome_skip? (m : MethodRef) : (o.skip? p m).isSome = !(o.effectsOf? p m).isSome := by
  unfold skip? effectsOf?
  rcases (o.standIn p m).outcome with e | st <;> rfl

theorem synthesized_add_skipped (o : Options) (p : Program) (ms : List MethodRef) :
    (o.reportOn p ms).synthesized + (o.reportOn p ms).skipped.length = ms.length := by
  simp only [reportOn, List.length_filterMap_eq_countP, isSome_skip?]
  rw [List.length_eq_countP_add_countP fun m => (o.effectsOf? p m).isSome]
  congr 2
  funext m
  cases (o.effectsOf? p m).isSome <;> rfl

/-! ## The rewritten program -/

theorem findIdx?_answers {c : ClassDecl} (hc : (c.methods.map fun m => m.ref c.name).Nodup)
    {j : Nat} {m : MethodDecl} (hj : c.methods[j]? = some m) :
    c.methods.findIdx? (fun n => n.answers (m.ref c.name)) = some j := by
  obtain ⟨hlt, rfl⟩ := List.getElem?_eq_some_iff.1 hj
  refine List.findIdx?_eq_some_iff_getElem.2 ⟨hlt, (MethodDecl.answers_iff rfl).2 rfl, ?_⟩
  intro k hk hans
  have href : (c.methods[k]).ref c.name = (c.methods[j]).ref c.name :=
    (MethodDecl.answers_iff rfl).1 hans
  have hne := List.pairwise_iff_getElem.1 hc k j (by simp; omega) (by simpa using hlt) hk
  simp only [List.getElem_map] at hne
  exact hne href

theorem rewritten_eq_exchanged {refs : List MethodRef} {c : ClassDecl}
    (hc : (c.methods.map fun m => m.ref c.name).Nodup) :
    o.rewritten p refs c = { c with methods := c.methods.map (o.exchanged p refs c) } := by
  unfold rewritten
  congr 1
  refine List.ext_getElem? fun j => ?_
  rcases hj : c.methods[j]? with _ | m
  · simp [hj]
  simp only [List.getElem?_mapIdx, List.getElem?_map, hj, Option.map_some, Option.some.injEq]
  unfold standInFor? exchanged
  by_cases hm : m.ref c.name ∈ refs
  · rw [if_pos ⟨hm, findIdx?_answers hc hj⟩, if_pos hm]
    rcases (o.standIn p (m.ref c.name)).outcome with e | st <;> rfl
  · rw [if_neg fun h => hm h.1, if_neg hm]
    rfl

theorem rewritten_congr {refs refs' : List MethodRef} (h : ∀ m, m ∈ refs ↔ m ∈ refs')
    (c : ClassDecl) : o.rewritten p refs c = o.rewritten p refs' c := by
  have hsame : ∀ j m, o.standInFor? p refs c j m = o.standInFor? p refs' c j m :=
    fun j m => standInFor?_congr (h _)
  unfold rewritten
  simp only [hsame]

end Options

namespace Program

variable {p : Program}

theorem mem_libraryMethods {r : MethodRef} :
    r ∈ p.libraryMethods ↔ ∃ c ∈ p.classes, c.isApplication = false ∧
      ∃ m ∈ c.bodied, m.ref c.name = r := by
  simp [libraryMethods, and_assoc]

theorem eq_of_name {c c' : ClassDecl} (hc : c ∈ p.classes) (hc' : c' ∈ p.classes)
    (h : c.name = c'.name) : c = c' :=
  List.inj_on_of_nodup_map p.distinct hc hc' h

theorem not_mem_libraryMethods {c : ClassDecl} (hc : c ∈ p.classes) (happ : c.isApplication)
    (m : MethodDecl) : m.ref c.name ∉ p.libraryMethods := by
  intro hm
  obtain ⟨c', hc', happ', m', _, href⟩ := mem_libraryMethods.1 hm
  have hname : c'.name = c.name := congrArg MethodRef.className href
  rw [eq_of_name hc' hc hname, happ] at happ'
  cases happ'

theorem Unambiguous.nodup_libraryMethods (h : p.Unambiguous) : p.libraryMethods.Nodup := by
  unfold libraryMethods
  refine List.nodup_flatMap.2 ⟨fun c hc => ?_, ?_⟩
  · refine List.Nodup.sublist ?_ (h c (List.mem_of_mem_filter hc))
    exact List.Sublist.map _ List.filter_sublist
  · have hd : (p.classes.filter fun c => !c.isApplication).Pairwise fun c c' => c.name ≠ c'.name :=
      (List.pairwise_map.1 p.distinct).filter _
    refine hd.imp fun hne => ?_
    intro r hr hr'
    obtain ⟨m, _, rfl⟩ := List.mem_map.1 hr
    obtain ⟨m', _, href⟩ := List.mem_map.1 hr'
    exact hne (congrArg MethodRef.className href).symm

end Program

/-! ## One after another -/

/-- The two come to the same, but for the order of the skipped methods. -/
structure Replacement.Agrees (r r' : Replacement) : Prop where
  program : r.program = r'.program
  synthesized : r.report.synthesized = r'.report.synthesized
  skipped : r.report.skipped.Perm r'.report.skipped
  readingArrays : r.report.readingArrays = r'.report.readingArrays
  writingArrays : r.report.writingArrays = r'.report.writingArrays
  flows : flowReport r.flows = flowReport r'.flows

namespace Options

variable {o : Options} {p : Program}

/-- Methods that are all different have the same stand-ins in the given program as in the one that
has the earlier stand-ins in it. -/
theorem foldl_install_inPlace {ms refs : List MethodRef} {R : Replacement}
    (hR : R.program.classes = p.classes.map (o.rewritten p refs)) (hms : (refs ++ ms).Nodup) :
    ms.foldl (fun R m => R.install m (o.standIn R.program m)) R =
      ms.foldl (fun R m => R.install m (o.standIn p m)) R := by
  induction ms generalizing refs R with
  | nil => rfl
  | cons m ms ih =>
    have hm : m ∉ refs := by
      intro hm
      exact (List.nodup_append.1 hms).2.2 m hm m List.mem_cons_self rfl
    rw [List.foldl_cons, List.foldl_cons, standIn_of_rewritten hR hm]
    refine ih (classes_install m hR) ?_
    rwa [List.append_assoc, List.singleton_append]

theorem replaceInPlace_agrees (h : p.Unambiguous) {ms : List MethodRef}
    (hms : ms.Perm p.libraryMethods) : (o.replaceInPlace p ms).Agrees (o.replaceLibrary p) := by
  have hfold : o.replaceInPlace p ms =
      ms.foldl (fun R m => R.install m (o.standIn p m)) ⟨p, .empty, []⟩ :=
    foldl_install_inPlace (classes_start o p)
      (by simpa using hms.nodup_iff.2 h.nodup_libraryMethods)
  have hreport : (o.replaceInPlace p ms).report = o.reportOn p ms := by
    rw [hfold, report_foldl_install ms (classes_start o p)]
    simp [Report.empty]
  have hflows : (o.replaceInPlace p ms).flows = ms.flatMap fun m => (o.standIn p m).flows := by
    rw [hfold, flows_foldl_install (o.standIn p)]
    rfl
  rw [replaceInPlace] at hfold
  constructor
  · refine Program.eq_of_classes ?_
    rw [replaceInPlace, hfold, classes_foldl_install ms (classes_start o p), classes_replaceLibrary]
    exact List.map_congr_left fun c _ => rewritten_congr (fun m => by simp [hms.mem_iff]) c
  · rw [hreport, report_replaceLibrary]
    exact hms.countP_eq _
  · rw [hreport, report_replaceLibrary]
    exact hms.filterMap _
  · rw [hreport, report_replaceLibrary]
    exact hms.countP_eq _
  · rw [hreport, report_replaceLibrary]
    exact hms.countP_eq _
  · rw [hflows, flows_replaceLibrary]
    exact flowReport_congr fun t => (hms.flatMap_right _).mem_iff

end Options

/-! ## At the same time -/

/-- A stand-in in the making: what is written of it, and what is left of its plan. -/
structure Task where
  effects : Effects
  draft : Draft
  rest : List (Except SynthesisError Step)

/-- Stand-ins in the making, and the types that they have stored into the shared field. -/
structure Pool where
  tasks : List Task
  shared : List ValueType

namespace Task

/-- Whether there is nothing left to write, or nothing but an error. -/
def isDone (t : Task) : Bool :=
  match t.rest with
  | .ok _ :: _ => false
  | _ => true

/-- What has come of a task that is done. -/
def outcome (t : Task) : Except SynthesisError StandIn :=
  match t.rest with
  | .error e :: _ => .error e
  | _ => .ok ⟨t.draft.body.tidy, t.effects⟩

/-- What comes of the task if it is carried on alone. -/
def finish (o : Options) (t : Task) : Synthesis :=
  let (outcome, d) := Step.emitAll o.abstraction o.guard (t.draft.withFlows []) t.rest
  ⟨outcome.map fun _ => ⟨d.body.tidy, t.effects⟩, d.flows⟩

end Task

namespace Options

variable (o : Options) (p : Program)

/-- The stand-in for a method as it is begun. -/
def task (m : MethodRef) : Task :=
  match subject p m with
  | .error e => ⟨.empty, .empty, [.error e]⟩
  | .ok s =>
    match s.effects with
    | .error e => ⟨.empty, .empty, [.error (.model e)]⟩
    | .ok e => ⟨e, .start s, s.plan p e (.collect p o.log e)⟩

/-- All stand-ins of the library are begun. -/
def pool : Pool :=
  ⟨p.libraryMethods.map (o.task p), []⟩

/-- One of the tasks writes one more step. What it stores is added to what all have stored. -/
inductive Advances : Pool → Pool → Prop
  | step {before after : List Task} {t : Task} {s : Step} {rest : List (Except SynthesisError Step)}
    {shared : List ValueType} : t.rest = .ok s :: rest →
    Advances ⟨before ++ t :: after, shared⟩
      ⟨before ++
          ⟨t.effects, s.emit o.abstraction o.guard (t.draft.withFlows shared), rest⟩ :: after,
        (s.emit o.abstraction o.guard (t.draft.withFlows shared)).flows⟩

/-- Any number of steps, whichever tasks write them. -/
abbrev Interleaves : Pool → Pool → Prop :=
  Relation.ReflTransGen o.Advances

end Options

/-- The stand-ins are put in their places in the order of the program. -/
def Pool.install (q : Pool) (p : Program) : Replacement :=
  let installed := (p.libraryMethods.zip (q.tasks.map Task.outcome)).foldl
    (fun r m => Replacement.install r m.1 ⟨m.2, []⟩) ⟨p, .empty, []⟩
  { installed with flows := q.shared }

theorem Step.emitAll_withFlows {a : Abstraction} {g : FieldRef}
    (ss : List (Except SynthesisError Step)) (d : Draft) (fs : List ValueType) :
    emitAll a g (d.withFlows fs) ss =
      ((emitAll a g (d.withFlows []) ss).1, (emitAll a g (d.withFlows []) ss).2.withFlows
        (fs ++ (emitAll a g (d.withFlows []) ss).2.flows)) := by
  induction ss generalizing d fs with
  | nil => simp [emitAll, withFlows]
  | cons step ss ih =>
    cases step with
    | error e => simp [emitAll, withFlows]
    | ok s =>
      simp only [emitAll, emit_withFlows, List.nil_append]
      rw [ih (s.emit a g d) (fs ++ _), ih (s.emit a g d) (a.flowing _)]
      simp only [withFlows_withFlows, List.append_assoc]
      rfl

namespace Task

variable {o : Options} {t : Task}

theorem finish_of_isDone (h : t.isDone) :
    (t.finish o).outcome = t.outcome ∧ (t.finish o).flows = [] := by
  rcases t with ⟨e, d, _ | ⟨_ | s, rest⟩⟩
  · exact ⟨rfl, rfl⟩
  · exact ⟨rfl, rfl⟩
  · cases h

/-- Carrying on a task by a step keeps what it comes to, but for what the step has stored. -/
theorem finish_step {s : Step} {rest : List (Except SynthesisError Step)}
    (h : t.rest = .ok s :: rest) (shared : List ValueType) :
    let t' : Task :=
      ⟨t.effects, s.emit o.abstraction o.guard (t.draft.withFlows shared), rest⟩
    (t'.finish o).outcome = (t.finish o).outcome ∧
      t'.draft.flows ++ (t'.finish o).flows = shared ++ (t.finish o).flows := by
  have hemit := Step.emit_withFlows (a := o.abstraction) (g := o.guard) t.draft shared s
  have hemit' := Step.emit_withFlows (a := o.abstraction) (g := o.guard) t.draft [] s
  have hall := Step.emitAll_withFlows (a := o.abstraction) (g := o.guard) rest
    (s.emit o.abstraction o.guard t.draft) (o.abstraction.flowing (s.stored? t.draft.types).toList)
  simp only [finish, h, Step.emitAll, hemit, hemit', List.nil_append, withFlows_withFlows, hall]
  refine ⟨rfl, ?_⟩
  simp [withFlows]

theorem finish_task (o : Options) (p : Program) (m : MethodRef) :
    (o.task p m).finish o = o.standIn p m := by
  unfold Options.task Options.standIn
  rcases Options.subject p m with e | s
  · rfl
  · simp only
    rcases s.effects with e | e
    · rfl
    · have hstart := withFlows_flows (Draft.start s)
      rw [flows_start] at hstart
      simp only [finish, hstart]
      rfl

end Task

namespace Pool

variable {o : Options} {q q' : Pool}

/-- Whether all tasks are done. -/
def isDone (q : Pool) : Bool :=
  q.tasks.all Task.isDone

/-- What the tasks come to stays the same with every step, and so do the types that they have
stored and those that they will store, taken together. -/
theorem of_advances (h : o.Advances q q') :
    q'.tasks.map (fun t => (t.finish o).outcome) = q.tasks.map (fun t => (t.finish o).outcome) ∧
      (q'.shared ++ q'.tasks.flatMap fun t => (t.finish o).flows).Perm
        (q.shared ++ q.tasks.flatMap fun t => (t.finish o).flows) := by
  cases h with
  | @step before after t s rest shared ht =>
    obtain ⟨hout, hflows⟩ := Task.finish_step (o := o) ht shared
    refine ⟨by simp only [List.map_append, List.map_cons, hout], ?_⟩
    simp only [List.flatMap_append, List.flatMap_cons]
    refine (List.perm_append_comm_assoc _ _ _).append_left _ |>.trans ?_
    rw [← List.append_assoc, hflows, List.append_assoc]
    exact (List.perm_append_comm_assoc _ _ _).append_left _

theorem of_interleaves (h : o.Interleaves q q') :
    q'.tasks.map (fun t => (t.finish o).outcome) = q.tasks.map (fun t => (t.finish o).outcome) ∧
      (q'.shared ++ q'.tasks.flatMap fun t => (t.finish o).flows).Perm
        (q.shared ++ q.tasks.flatMap fun t => (t.finish o).flows) := by
  induction h with
  | refl => exact ⟨rfl, .refl _⟩
  | tail _ hstep ih =>
    obtain ⟨hout, hflows⟩ := of_advances hstep
    exact ⟨hout.trans ih.1, hflows.trans ih.2⟩

/-- How many steps are left. -/
def left (q : Pool) : Nat :=
  (q.tasks.flatMap Task.rest).length

theorem exists_advances (o : Options) (hq : q.isDone = false) :
    ∃ q', o.Advances q q' ∧ q'.left < q.left := by
  obtain ⟨t, ht, hdone⟩ : ∃ t ∈ q.tasks, t.isDone = false := by simpa [isDone] using hq
  obtain ⟨before, after, hsplit⟩ := List.append_of_mem ht
  obtain ⟨s, rest, hrest⟩ : ∃ s rest, t.rest = .ok s :: rest := by
    rcases t with ⟨e, d, _ | ⟨_ | s, rest⟩⟩
    · cases hdone
    · cases hdone
    · exact ⟨s, rest, rfl⟩
  have hstep := @Options.Advances.step o before after t s rest q.shared hrest
  rw [← hsplit] at hstep
  refine ⟨_, hstep, ?_⟩
  simp only [left, hsplit, List.flatMap_append, List.flatMap_cons, List.length_append, hrest,
    List.length_cons]
  omega

/-- Whatever has been done, the rest can be done. -/
theorem exists_isDone (o : Options) (q : Pool) : ∃ q', o.Interleaves q q' ∧ q'.isDone := by
  generalize hn : q.left = n
  induction n using Nat.strongRecOn generalizing q with
  | ind n ih =>
    subst hn
    rcases hq : q.isDone with _ | _
    · obtain ⟨q', hstep, hlt⟩ := exists_advances o hq
      obtain ⟨q'', hreach, hdone⟩ := ih _ hlt q' rfl
      exact ⟨q'', .head hstep hreach, hdone⟩
    · exact ⟨q, .refl, hq⟩

/-- The tasks of the library, when all are done, have come to the stand-ins of its methods. -/
theorem of_isDone {p : Program} (h : o.Interleaves (o.pool p) q) (hq : q.isDone) :
    q.tasks.map Task.outcome = p.libraryMethods.map (fun m => (o.standIn p m).outcome) ∧
      q.shared.Perm (p.libraryMethods.flatMap fun m => (o.standIn p m).flows) := by
  obtain ⟨hout, hflows⟩ := of_interleaves h
  have hdone : ∀ t ∈ q.tasks, (t.finish o).outcome = t.outcome ∧ (t.finish o).flows = [] :=
    fun t ht => Task.finish_of_isDone (List.all_eq_true.1 hq t ht)
  have hnone : (q.tasks.flatMap fun t => (t.finish o).flows) = [] :=
    List.flatMap_eq_nil_iff.2 fun t ht => (hdone t ht).2
  simp only [Options.pool, List.map_map, List.flatMap_map, Function.comp_def, Task.finish_task,
    hnone, List.append_nil, List.nil_append] at hout hflows
  refine ⟨?_, hflows⟩
  rw [← hout]
  exact List.map_congr_left fun t ht => (hdone t ht).1.symm

end Pool

/-! ## The same in the end -/

namespace Options

variable {o : Options} {p : Program}

theorem foldl_install_congr (f : MethodRef → Synthesis) (ms : List MethodRef)
    (R R' : Replacement) (hp : R.program = R'.program) (hr : R.report = R'.report) :
    let r := (ms.zip (ms.map fun m => (f m).outcome)).foldl
      (fun R m => Replacement.install R m.1 ⟨m.2, []⟩) R
    let r' := ms.foldl (fun R m => R.install m (f m)) R'
    r.program = r'.program ∧ r.report = r'.report := by
  induction ms generalizing R R' with
  | nil => exact ⟨hp, hr⟩
  | cons m ms ih =>
    refine ih _ _ ?_ ?_
    · simp only [Replacement.install, hp]
    · simp only [Replacement.install, hp, hr]

theorem install_agrees {q : Pool} (h : o.Interleaves (o.pool p) q) (hq : q.isDone) :
    (q.install p).program = (o.replaceLibrary p).program ∧
      (q.install p).report = (o.replaceLibrary p).report ∧
      flowReport (q.install p).flows = flowReport (o.replaceLibrary p).flows := by
  obtain ⟨hout, hflows⟩ := Pool.of_isDone h hq
  obtain ⟨hprogram, hreport⟩ := foldl_install_congr (o.standIn p) p.libraryMethods
    ⟨p, .empty, []⟩ ⟨p, .empty, []⟩ rfl rfl
  rw [← hout] at hprogram hreport
  refine ⟨hprogram, hreport, ?_⟩
  rw [flows_replaceLibrary]
  exact flowReport_congr fun t => hflows.mem_iff

end Options

/-- What replacing a library comes to, in whatever order the stand-ins are made. -/
structure Options.Orderless (o : Options) (p : Program) : Prop where
  /-- The bodies of library methods that have stand-ins are exchanged, and nothing else is. -/
  classes : (o.replaceLibrary p).program.classes = p.classes.map fun c =>
    { c with methods := c.methods.map (o.exchanged p p.libraryMethods c) }
  application : ∀ c ∈ p.classes, c.isApplication →
    ∀ m ∈ c.methods, o.exchanged p p.libraryMethods c m = m
  report : (o.replaceLibrary p).report = o.reportOn p p.libraryMethods
  accounted : (o.replaceLibrary p).report.synthesized +
    (o.replaceLibrary p).report.skipped.length = p.libraryMethods.length
  inPlace : ∀ ms, ms.Perm p.libraryMethods →
    (o.replaceInPlace p ms).Agrees (o.replaceLibrary p)
  /-- Stand-ins that are made at the same time can be finished, whatever has been done. -/
  finishing : ∀ q, o.Interleaves (o.pool p) q → ∃ q', o.Interleaves q q' ∧ q'.isDone
  interleaved : ∀ q, o.Interleaves (o.pool p) q → q.isDone →
    (q.install p).program = (o.replaceLibrary p).program ∧
      (q.install p).report = (o.replaceLibrary p).report ∧
      flowReport (q.install p).flows = flowReport (o.replaceLibrary p).flows

/-- Replacing a library comes to the same whether its stand-ins are made one after another, in any
order and in place, or at the same time. -/
theorem replaceLibrary_orderless {o : Options} {p : Program} (h : p.Unambiguous) :
    o.Orderless p where
  classes := by
    rw [Options.classes_replaceLibrary]
    exact List.map_congr_left fun c hc => Options.rewritten_eq_exchanged (h c hc)
  application c hc happ m _ := by
    unfold Options.exchanged
    rw [if_neg (Program.not_mem_libraryMethods hc happ m)]
  report := Options.report_replaceLibrary o p
  accounted := by
    rw [Options.report_replaceLibrary]
    exact Options.synthesized_add_skipped o p p.libraryMethods
  inPlace _ hms := Options.replaceInPlace_agrees h hms
  finishing q _ := Pool.exists_isDone o q
  interleaved _ hq := Options.install_agrees hq

namespace Sample

/-- A library of which one method has no stand-in: its body waits for a bootstrap method. -/
def linking : Program where
  classes :=
    [library "A" none
        [method "link" [.reference "B"] true (some
          ⟨[⟨"b", .reference "B"⟩],
            [.bind 0 (.parameter 0),
              .invoke ⟨.dynamic, ⟨"B", "call", [], .void⟩, none, []⟩, .ret none], []⟩),
        method "make" [] true (some
          ⟨[⟨"c", .reference "C"⟩],
            [.assign (.var 0) (.new "C"),
              .invoke ⟨.special, ⟨"C", "<init>", [], .void⟩, some 0, []⟩, .ret none], []⟩)],
      library "C" none [method "<init>" [] false none]]
  distinct := by decide

end Sample

theorem replaceLibrary_orderless_linking :
    Sample.linking.Unambiguous ∧ (Sample.options (.shared Sample.place)).Orderless Sample.linking :=
  ⟨by decide, replaceLibrary_orderless (by decide)⟩

end Standin
