import Mathlib.Data.List.Nodup
import Standin.Library
import Standin.Proofs.Plan

/-!
# What replacing a library changes

Stand-ins are put in their places one after another, each made from the program as it was given.
In the end every class is as it was but for the bodies of its methods, and the body of a method has
been replaced if and only if there is a stand-in for it (`standInFor?`, `classes_replaceLibrary`):
where a class declares a signature more than once, only the first method of it can be replaced.
-/

namespace Standin

theorem modifyFirst_eq_mapIdx {α : Type} (q : α → Bool) (f : α → α) (xs : List α) :
    modifyFirst q f xs = xs.mapIdx fun j x => if xs.findIdx? q = some j then f x else x := by
  induction xs with
  | nil => rfl
  | cons x xs ih =>
    unfold modifyFirst
    rw [List.mapIdx_cons, List.findIdx?_cons]
    split
    · have hid : xs.mapIdx (fun _ x => x) = xs := List.ext_getElem? (by simp)
      simp [hid]
    · rw [ih]
      simp

/-- Where one item at most satisfies `q`, changing the first one is changing all. -/
theorem modifyFirst_eq_map {α : Type} {q : α → Bool} (f : α → α) {xs : List α}
    (hq : xs.Pairwise fun x y => ¬(q x ∧ q y)) :
    modifyFirst q f xs = xs.map fun x => if q x then f x else x := by
  induction xs with
  | nil => rfl
  | cons x xs ih =>
    obtain ⟨hx, hxs⟩ := List.pairwise_cons.1 hq
    unfold modifyFirst
    split
    · next h =>
      have hrest : xs.map (fun y => if q y then f y else y) = xs := by
        refine List.map_congr_left (fun y hy => ?_) |>.trans (List.map_id xs)
        rw [if_neg fun hy' => hx y hy ⟨h, hy'⟩]
        rfl
      rw [List.map_cons, if_pos h, hrest]
    · next h => rw [List.map_cons, if_neg h, ih hxs]

/-! ## Programs with the same signatures -/

/-- The method without its body. -/
def MethodDecl.signature (m : MethodDecl) : MethodDecl :=
  { m with body := none }

/-- The class without the bodies of its methods. -/
def ClassDecl.skeleton (c : ClassDecl) : ClassDecl :=
  { c with methods := c.methods.map MethodDecl.signature }

/-- Classes of one skeleton differ in the bodies of their methods at most. -/
theorem ClassDecl.of_skeleton {c c' : ClassDecl} (h : c'.skeleton = c.skeleton) :
    c'.name = c.name ∧ c'.superclass = c.superclass ∧ c'.interfaces = c.interfaces ∧
      c'.isInterface = c.isInterface := by
  simp only [skeleton, ClassDecl.mk.injEq] at h
  exact ⟨h.1, h.2.1, h.2.2.1, h.2.2.2.1⟩

theorem MethodDecl.of_signature {m m' : MethodDecl} (h : m'.signature = m.signature) :
    m'.isConcrete = m.isConcrete ∧ m'.isStatic = m.isStatic ∧ ∀ c, m'.ref c = m.ref c := by
  simp only [signature, MethodDecl.mk.injEq] at h
  obtain ⟨hn, hp, hr, hs, ha, hv, _⟩ := h
  exact ⟨by rw [isConcrete, ha, hv]; rfl, hs, fun c => by rw [ref, hn, hp, hr]; rfl⟩

theorem MethodDecl.answers_iff {m : MethodDecl} {c : String} {r : MethodRef}
    (hr : r.className = c) : m.answers r ↔ m.ref c = r := by
  rcases r with ⟨rc, rn, rp, rr⟩
  simp only [answers, ref, Bool.and_eq_true, decide_eq_true_eq, MethodRef.mk.injEq] at hr ⊢
  tauto

/-- Looking for a method by its signature finds methods of the same signature in classes of the
same skeleton. -/
theorem find?_of_skeleton {c c' : ClassDecl} (h : c'.skeleton = c.skeleton) {q : MethodDecl → Bool}
    (hq : ∀ m, q m.signature = q m) :
    (c'.methods.find? q).map MethodDecl.signature =
      (c.methods.find? q).map MethodDecl.signature := by
  have hmap : ∀ ms : List MethodDecl,
      (ms.find? q).map MethodDecl.signature = (ms.map MethodDecl.signature).find? q := by
    intro ms
    rw [List.find?_map]
    congr 2
    exact funext fun m => (hq m).symm
  rw [hmap, hmap, show c'.methods.map MethodDecl.signature = c.methods.map MethodDecl.signature from
    congrArg ClassDecl.methods h]

theorem findIdx?_of_skeleton {c c' : ClassDecl} (h : c'.skeleton = c.skeleton)
    {q : MethodDecl → Bool} (hq : ∀ m, q m.signature = q m) :
    c'.methods.findIdx? q = c.methods.findIdx? q := by
  have hmap : ∀ ms : List MethodDecl, ms.findIdx? q = (ms.map MethodDecl.signature).findIdx? q := by
    intro ms
    rw [List.findIdx?_map]
    congr 1
    exact funext fun m => (hq m).symm
  rw [hmap c'.methods, hmap c.methods,
    show c'.methods.map MethodDecl.signature = c.methods.map MethodDecl.signature from
      congrArg ClassDecl.methods h]

theorem Program.class?_of_map {p p' : Program} {f : ClassDecl → ClassDecl}
    (hp : p'.classes = p.classes.map f) (hf : ∀ c, (f c).name = c.name) (name : String) :
    p'.class? name = (p.class? name).map f := by
  unfold class?
  rw [hp, List.find?_map]
  congr 2
  exact funext fun c => by simp [hf]

namespace Options

variable (o : Options) (p : Program)

/-- The stand-in for the method `m` at position `j` of a class, if `refs` are the methods to
replace. -/
def standInFor? (refs : List MethodRef) (c : ClassDecl) (j : Nat) (m : MethodDecl) :
    Option StandIn :=
  if m.ref c.name ∈ refs ∧ c.methods.findIdx? (fun n => n.answers (m.ref c.name)) = some j then
    (o.standIn p (m.ref c.name)).outcome.toOption
  else none

/-- The class with the stand-ins for its methods. -/
def rewritten (refs : List MethodRef) (c : ClassDecl) : ClassDecl :=
  { c with
    methods := c.methods.mapIdx fun j m =>
      { m with body := ((o.standInFor? p refs c j m).map StandIn.body).or m.body } }

variable {o p}

theorem skeleton_rewritten (refs : List MethodRef) (c : ClassDecl) :
    (o.rewritten p refs c).skeleton = c.skeleton := by
  unfold rewritten ClassDecl.skeleton
  congr 1
  refine List.ext_getElem? fun j => ?_
  simp only [List.getElem?_map, List.getElem?_mapIdx, Option.map_map]
  rfl

theorem standInFor?_eq_some {refs : List MethodRef} {c : ClassDecl} {j : Nat} {m : MethodDecl}
    {st : StandIn} :
    o.standInFor? p refs c j m = some st ↔ m.ref c.name ∈ refs ∧
      c.methods.findIdx? (fun n => n.answers (m.ref c.name)) = some j ∧
      (o.standIn p (m.ref c.name)).outcome = .ok st := by
  unfold standInFor?
  split
  · next hj =>
    simp only [hj, true_and]
    rcases (o.standIn p (m.ref c.name)).outcome with err | st' <;> simp [Except.toOption]
  · next hj =>
    simp only [reduceCtorEq, false_iff]
    exact fun h => hj ⟨h.1, h.2.1⟩

theorem standInFor?_congr {refs refs' : List MethodRef} {c : ClassDecl} {j : Nat} {m : MethodDecl}
    (h : m.ref c.name ∈ refs ↔ m.ref c.name ∈ refs') :
    o.standInFor? p refs c j m = o.standInFor? p refs' c j m := by
  unfold standInFor?
  simp only [h]

theorem rewritten_of_error {refs : List MethodRef} {r : MethodRef} {e : SynthesisError}
    (h : (o.standIn p r).outcome = .error e) (c : ClassDecl) :
    o.rewritten p (refs ++ [r]) c = o.rewritten p refs c := by
  have hsame : ∀ j m, o.standInFor? p (refs ++ [r]) c j m = o.standInFor? p refs c j m := by
    intro j m
    by_cases hr : m.ref c.name = r
    · have hnone : ∀ refs, o.standInFor? p refs c j m = none := by
        intro refs
        unfold standInFor?
        rw [hr, h]
        split <;> rfl
      rw [hnone, hnone]
    · exact standInFor?_congr (by simp [hr])
  unfold rewritten
  simp only [hsame]

theorem setBody_rewritten {refs : List MethodRef} {r : MethodRef} {st : StandIn}
    (h : (o.standIn p r).outcome = .ok st) (c : ClassDecl) :
    (if c.name = r.className then (o.rewritten p refs c).setBody r st.body
      else o.rewritten p refs c) = o.rewritten p (refs ++ [r]) c := by
  split
  · next hc =>
    have hidx : (o.rewritten p refs c).methods.findIdx? (fun m => m.answers r) =
        c.methods.findIdx? fun m => m.answers r :=
      findIdx?_of_skeleton (skeleton_rewritten refs c) fun _ => rfl
    unfold ClassDecl.setBody
    rw [modifyFirst_eq_mapIdx, hidx]
    unfold rewritten
    congr 1
    refine List.ext_getElem? fun j => ?_
    rcases hm : c.methods[j]? with _ | m
    · simp [hm]
    simp only [List.getElem?_mapIdx, hm, Option.map_some, Option.some.injEq]
    split
    · next hj =>
      have hr : m.ref c.name = r := by
        refine (MethodDecl.answers_iff hc.symm).1 ?_
        obtain ⟨hlt, ha, _⟩ := List.findIdx?_eq_some_iff_getElem.1 hj
        rwa [← (List.getElem?_eq_some_iff.1 hm).2]
      have hst : o.standInFor? p (refs ++ [r]) c j m = some st := by
        unfold standInFor?
        rw [hr, if_pos ⟨by simp, hj⟩, h]
        rfl
      rw [hst]
      rfl
    · next hj =>
      have hsame : o.standInFor? p (refs ++ [r]) c j m = o.standInFor? p refs c j m := by
        by_cases hr : m.ref c.name = r
        · have hnone : ∀ refs, o.standInFor? p refs c j m = none := by
            intro refs
            unfold standInFor?
            rw [if_neg fun hand => hj (hr ▸ hand.2)]
          rw [hnone, hnone]
        · exact standInFor?_congr (by simp [hr])
      rw [hsame]
  · next hc =>
    have hsame : ∀ j m, o.standInFor? p (refs ++ [r]) c j m = o.standInFor? p refs c j m := by
      intro j m
      have hr : m.ref c.name ≠ r := fun hr => hc (congrArg MethodRef.className hr)
      exact standInFor?_congr (by simp [hr])
    unfold rewritten
    simp only [hsame]

theorem rewritten_nil (c : ClassDecl) : o.rewritten p [] c = c := by
  have hmethods : (o.rewritten p [] c).methods = c.methods := by
    refine List.ext_getElem? fun j => ?_
    simp [rewritten, standInFor?]
  calc o.rewritten p [] c = { c with methods := (o.rewritten p [] c).methods } := rfl
    _ = c := by rw [hmethods]

/-- A method that has a stand-in is found in a program whose bodies alone have changed. -/
theorem lookup_of_standIn {refs : List MethodRef} {q : Program} {r : MethodRef} {st : StandIn}
    (hq : q.classes = p.classes.map (o.rewritten p refs)) (h : (o.standIn p r).outcome = .ok st) :
    ∃ c m, q.lookup r = .ok (c, m) := by
  obtain ⟨s, _, _, _, _, hs, _⟩ := standIn_eq_ok h
  unfold subject Program.lookup at hs
  rcases hc : p.class? r.className with _ | c
  · simp [hc] at hs
  rcases hm : c.method? r with _ | m
  · simp [hc, hm] at hs
  have hfind := find?_of_skeleton (skeleton_rewritten (o := o) (p := p) refs c)
    (q := fun m => m.answers r) fun _ => rfl
  have hm' : c.methods.find? (fun m => m.answers r) = some m := hm
  rw [hm', Option.map_some] at hfind
  obtain ⟨m', hm', _⟩ := Option.map_eq_some_iff.1 hfind
  refine ⟨o.rewritten p refs c, m', ?_⟩
  have hc' := Program.class?_of_map hq (fun _ => rfl) r.className
  rw [hc, Option.map_some] at hc'
  simp [Program.lookup, hc', ClassDecl.method?, hm']

theorem classes_install {refs : List MethodRef} {R : Replacement} (r : MethodRef)
    (hR : R.program.classes = p.classes.map (o.rewritten p refs)) :
    (R.install r (o.standIn p r)).program.classes =
      p.classes.map (o.rewritten p (refs ++ [r])) := by
  rcases h : (o.standIn p r).outcome with e | st
  · have hkept : (R.install r (o.standIn p r)).program = R.program := by
      simp only [Replacement.install, h]
      rfl
    rw [hkept, hR]
    exact List.map_congr_left fun c _ => (rewritten_of_error h c).symm
  · obtain ⟨c, m, hl⟩ := lookup_of_standIn hR h
    have hset : (R.install r (o.standIn p r)).program = R.program.setBody r st.body := by
      simp only [Replacement.install, h, Program.replaceBody, hl]
      rfl
    have hdistinct : R.program.classes.Pairwise fun c c' =>
        ¬(decide (c.name = r.className) = true ∧ decide (c'.name = r.className) = true) := by
      have hd := R.program.distinct
      rw [List.Nodup, List.pairwise_map] at hd
      refine hd.imp fun hne hand => hne ?_
      simp only [decide_eq_true_eq] at hand
      exact hand.1.trans hand.2.symm
    rw [hset]
    refine (modifyFirst_eq_map _ hdistinct).trans ?_
    rw [hR, List.map_map]
    refine List.map_congr_left fun c _ => ?_
    rw [← setBody_rewritten h c]
    simp only [Function.comp_apply, decide_eq_true_eq]
    rfl

theorem classes_foldl_install (rs : List MethodRef) {refs : List MethodRef} {R : Replacement}
    (hR : R.program.classes = p.classes.map (o.rewritten p refs)) :
    (rs.foldl (fun R r => R.install r (o.standIn p r)) R).program.classes =
      p.classes.map (o.rewritten p (refs ++ rs)) := by
  induction rs generalizing refs R with
  | nil => rw [List.foldl_nil, List.append_nil, hR]
  | cons r rs ih =>
    rw [List.foldl_cons, ih (classes_install r hR), List.append_assoc]
    rfl

/-- Replacing the library puts every stand-in in its place and changes nothing else. -/
theorem classes_replaceLibrary (o : Options) (p : Program) :
    (o.replaceLibrary p).program.classes = p.classes.map (o.rewritten p p.libraryMethods) := by
  have hstart : (⟨p, .empty, []⟩ : Replacement).program.classes =
      p.classes.map (o.rewritten p []) :=
    ((List.map_congr_left fun c _ => rewritten_nil c).trans (List.map_id _)).symm
  exact classes_foldl_install p.libraryMethods hstart

end Options

end Standin
