import Standin.Abstraction
import Standin.Proofs.Code

/-!
# Drafts as they are written

A draft only grows (`Draft.Grows`): what it remembers stays remembered. What it remembers is true of
its code (`Draft.Sound`): the variable that stands for all objects gets its value from the place and
from nothing else, the variable of a cast from the one cast of that variable, the variable of the
guard from the one load of the guard, and every other variable from one instruction at most.
-/

namespace Standin

/-- The value of another variable. -/
def Origin.copy (x : VarId) : Origin :=
  .value (.use (.var x))

/-- The value of a variable that holds no object yet. -/
def Origin.null : Origin :=
  .value (.use (.const .null))

/-- A value that a stand-in may take from the place. -/
def Origin.isTaken : Origin → Bool
  | value (.staticField _) => true
  | value (.use _) => true
  | _ => false

namespace Abstraction

/-- What the variable `r` that stands for all objects gets its value from: one load of the shared
field, or the variables stored into the place of the body, where `null` may come first. -/
def Represents (a : Abstraction) (b : Body) (r : VarId) : Prop :=
  match a with
  | shared f => b.typeOf? r = some f.type ∧ b.origins r = [.value (.staticField f)]
  | perUnit =>
    b.typeOf? r = some .object ∧
      ∃ (o : Origin) (xs : List VarId), b.origins r = o :: xs.map .copy ∧
        (o = .null ∨ ∃ x, o = .copy x)

variable {a : Abstraction} {b b' : Body} {r : VarId}

theorem Represents.congr (h : a.Represents b r) (ht : b'.typeOf? r = b.typeOf? r)
    (ho : b'.origins r = b.origins r) : a.Represents b' r := by
  cases a with
  | shared f => exact ⟨ht ▸ h.1, ho ▸ h.2⟩
  | perUnit => exact ⟨ht ▸ h.1, by rw [ho]; exact h.2⟩

theorem Represents.isTaken (h : a.Represents b r) : ∀ o ∈ b.origins r, o.isTaken := by
  cases a with
  | shared f => simp [h.2, Origin.isTaken]
  | perUnit =>
    obtain ⟨_, o, xs, ho, hnull⟩ := h
    intro o' ho'
    rw [ho, List.mem_cons] at ho'
    rcases ho' with rfl | ho'
    · rcases hnull with rfl | ⟨x, rfl⟩ <;> rfl
    · obtain ⟨x, _, rfl⟩ := List.mem_map.1 ho'
      rfl

theorem Represents.lt (h : a.Represents b r) : r < b.declared.length := by
  cases a with
  | shared f => exact Body.lt_of_typeOf? h.1
  | perUnit => exact Body.lt_of_typeOf? h.1

end Abstraction

namespace Draft

variable {a : Abstraction} {g : FieldRef} {d d' d'' : Draft}

theorem typeOf?_body (d : Draft) (x : VarId) : d.body.typeOf? x = d.typeOf? x :=
  rfl

/-- `d'` is `d` with more in it. -/
structure Grows (d d' : Draft) : Prop where
  declared : d.declared <+: d'.declared
  casts : d.casts ⊆ d'.casts
  representative : ∀ x, d.representative = some x → d'.representative = some x
  guard : ∀ x, d.guard = some x → d'.guard = some x

namespace Grows

theorem refl (d : Draft) : Grows d d :=
  ⟨List.prefix_refl _, List.Subset.refl _, fun _ h => h, fun _ h => h⟩

theorem trans (h : Grows d d') (h' : Grows d' d'') : Grows d d'' :=
  ⟨h.declared.trans h'.declared, List.Subset.trans h.casts h'.casts,
    fun x hx => h'.representative x (h.representative x hx),
    fun x hx => h'.guard x (h.guard x hx)⟩

theorem typeOf? (h : Grows d d') {x : VarId} {t : ValueType} (hx : d.typeOf? x = some t) :
    d'.typeOf? x = some t := by
  have hl : x < d.declared.length := Body.lt_of_typeOf? (b := d.body) hx
  obtain ⟨vs, hvs⟩ := h.declared
  unfold Draft.typeOf? at hx ⊢
  rwa [← hvs, List.getElem?_append_left hl]

theorem length_le (h : Grows d d') : d.declared.length ≤ d'.declared.length :=
  h.declared.length_le

end Grows

/-- What the draft remembers is true of its code. -/
structure Sound (a : Abstraction) (g : FieldRef) (d : Draft) : Prop where
  inScope : d.body.Scoped
  single : ∀ x, d.representative ≠ some x → (d.body.origins x).length ≤ 1
  representative : ∀ r, d.representative = some r → a.Represents d.body r
  casts : ∀ t x, (t, x) ∈ d.casts → d.typeOf? x = some t ∧
    ∃ r, d.representative = some r ∧ d.body.origins x = [.value (.cast (.var r) t)]
  guard : ∀ x, d.guard = some x →
    d.typeOf? x = some g.type ∧ d.body.origins x = [.value (.staticField g)]

theorem origins_push (d : Draft) (i : Instruction) (x : VarId) :
    (d.push i).body.origins x = d.body.origins x ++ (i.originOf? x).toList := by
  simp only [push, body, Body.origins, List.filterMap_append, List.filterMap_cons,
    List.filterMap_nil]
  cases i.originOf? x <;> rfl

namespace Sound

/-- Writing more keeps a draft sound if it gives no value to a variable that was there, and one at
most to each new one. -/
theorem frame (h : d.Sound a g) (hv : d.declared <+: d'.declared) (hc : d'.casts = d.casts)
    (hr : d'.representative = d.representative) (hg : d'.guard = d.guard) (hs : d'.body.Scoped)
    (ho : ∀ x, x < d.declared.length → d'.body.origins x = d.body.origins x)
    (hn : ∀ x, d.declared.length ≤ x → (d'.body.origins x).length ≤ 1) : d'.Sound a g := by
  have hgr : Grows d d' := ⟨hv, by rw [hc]; exact List.Subset.refl _,
    by rw [hr]; exact fun _ h => h, by rw [hg]; exact fun _ h => h⟩
  have hdecl : ∀ {x t}, d.typeOf? x = some t → x < d.declared.length :=
    fun hx => Body.lt_of_typeOf? (b := d.body) hx
  refine ⟨hs, ?_, ?_, ?_, ?_⟩
  · intro x hx
    rcases Nat.lt_or_ge x d.declared.length with hl | hl
    · rw [ho x hl]
      exact h.single x (hr ▸ hx)
    · exact hn x hl
  · intro r hrr
    have hrep := h.representative r (hr ▸ hrr)
    refine hrep.congr ?_ (ho r hrep.lt)
    rcases ht : d.typeOf? r with _ | t
    · have := (Body.typeOf?_eq_none (b := d.body)).1 ht
      exact absurd hrep.lt (Nat.not_lt.2 this)
    · rw [typeOf?_body, hgr.typeOf? ht]
      exact ht.symm
  · intro t x hx
    obtain ⟨ht, r, hrr, hor⟩ := h.casts t x (hc ▸ hx)
    exact ⟨hgr.typeOf? ht, r, hr ▸ hrr, by rw [ho x (hdecl ht)]; exact hor⟩
  · intro x hx
    obtain ⟨ht, hor⟩ := h.guard x (hg ▸ hx)
    exact ⟨hgr.typeOf? ht, by rw [ho x (hdecl ht)]; exact hor⟩

theorem push (h : d.Sound a g) {i : Instruction} (hi : i.origin? = none)
    (hx : ∀ x ∈ i.vars, x < d.declared.length) : (d.push i).Sound a g := by
  have ho : ∀ x, (d.push i).body.origins x = d.body.origins x := by
    intro x
    rw [origins_push, Instruction.originOf?_of_origin? hi]
    simp
  refine h.frame (List.prefix_refl _) rfl rfl rfl ?_ (fun x _ => ho x) ?_
  · intro j hj
    rcases List.mem_append.1 hj with hj | hj
    · exact h.inScope j hj
    · rw [List.mem_singleton.1 hj]
      exact hx
  · intro x hl
    rw [ho, h.inScope.origins_eq_nil hl]
    simp

theorem introduce (h : d.Sound a g) (t : ValueType) {i : Instruction} {o : Origin}
    (hi : i.origin? = some (d.declared.length, o))
    (hv : ∀ x ∈ i.vars, x = d.declared.length ∨ x < d.declared.length) :
    ((d.newVar t).1.push i).Sound a g := by
  have ho : ∀ x, ((d.newVar t).1.push i).body.origins x =
      d.body.origins x ++ (i.originOf? x).toList := origins_push (d.newVar t).1 i
  have hl : ((d.newVar t).1.push i).body.declared.length = d.declared.length + 1 := by
    simp [newVar, Draft.push, Draft.body]
  refine h.frame (List.prefix_append _ _) rfl rfl rfl ?_ ?_ ?_
  · intro j hj x hx
    rw [hl]
    rcases List.mem_append.1 hj with hj | hj
    · exact Nat.lt_succ_of_lt (h.inScope j hj x hx)
    · rw [List.mem_singleton.1 hj] at hx
      rcases hv x hx with rfl | hx
      · exact Nat.lt_succ_self _
      · exact Nat.lt_succ_of_lt hx
  · intro x hx
    have hn : i.originOf? x = none := by simp [Instruction.originOf?, hi, Nat.ne_of_gt hx]
    rw [ho, hn, Option.toList_none, List.append_nil]
  · intro x hx
    rw [ho, h.inScope.origins_eq_nil hx]
    cases i.originOf? x <;> simp

theorem assignNew (h : d.Sound a g) (t : ValueType) {e : Expr}
    (he : ∀ x ∈ e.vars, x < d.declared.length) : (d.assignNew t e).1.Sound a g := by
  refine h.introduce t rfl fun x hx => ?_
  simp only [Instruction.vars, Place.vars, List.singleton_append, List.mem_cons] at hx
  exact hx.imp id (he x)

theorem origins_new (h : d.Sound a g) (t : ValueType) (e : Expr) :
    (d.assignNew t e).1.body.origins (d.assignNew t e).2 = [.value e] := by
  have hn : d.body.origins (d.assignNew t e).2 = [] := h.inScope.origins_eq_nil (Nat.le_refl _)
  calc (d.assignNew t e).1.body.origins (d.assignNew t e).2
      = d.body.origins (d.assignNew t e).2 ++
          (Instruction.originOf? (d.assignNew t e).2
            (.assign (.var (d.assignNew t e).2) e)).toList := origins_push _ _ _
    _ = [.value e] := by simp [hn, Instruction.originOf?, Instruction.origin?]

/-- What is given to a variable other than the one for all objects is its only value. -/
theorem origins_eq (h : d.Sound a g) {x : VarId} {o : Origin} (ho : o ∈ d.body.origins x)
    (hx : d.representative ≠ some x) : d.body.origins x = [o] := by
  have hl := h.single x hx
  rcases hs : d.body.origins x with _ | ⟨o', _ | ⟨_, _⟩⟩
  · rw [hs] at ho
    cases ho
  · rw [hs, List.mem_singleton] at ho
    rw [ho]
  · rw [hs] at hl
    simp at hl

/-- A value that is not taken from the place is the only value of its variable. -/
theorem origins_eq_of_mem (h : d.Sound a g) {x : VarId} {o : Origin} (ho : o ∈ d.body.origins x)
    (hn : o.isTaken = false) : d.body.origins x = [o] := by
  refine h.origins_eq ho fun hx => ?_
  have := (h.representative x hx).isTaken o ho
  rw [hn] at this
  cases this

theorem withCast (h : d.Sound a g) {r x : VarId} {t : ValueType} (hr : d.representative = some r)
    (ht : d.typeOf? x = some t) (ho : d.body.origins x = [.value (.cast (.var r) t)]) :
    Sound a g { d with casts := d.casts ++ [(t, x)] } := by
  refine ⟨h.inScope, h.single, h.representative, ?_, h.guard⟩
  intro t' x' hx
  rcases List.mem_append.1 hx with hx | hx
  · exact h.casts t' x' hx
  · obtain ⟨rfl, rfl⟩ := Prod.mk.inj (List.mem_singleton.1 hx)
    exact ⟨ht, r, hr, ho⟩

theorem withGuard (h : d.Sound a g) {x : VarId} (ht : d.typeOf? x = some g.type)
    (ho : d.body.origins x = [.value (.staticField g)]) :
    Sound a g { d with guard := some x } := by
  refine ⟨h.inScope, h.single, h.representative, h.casts, ?_⟩
  rintro y hy
  cases hy
  exact ⟨ht, ho⟩

-- Casts are casts of the variable that stands for all objects, so there are none before it.
theorem withRepresentative (h : d.Sound a g) (hn : d.representative = none) {r : VarId}
    (hr : a.Represents d.body r) : Sound a g { d with representative := some r } := by
  refine ⟨h.inScope, fun x _ => h.single x (by simp [hn]), ?_, ?_, h.guard⟩
  · rintro r' hr'
    cases hr'
    exact hr
  · intro t x hx
    obtain ⟨_, r', hr', _⟩ := h.casts t x hx
    rw [hn] at hr'
    cases hr'

theorem pushCopy (h : d.Sound .perUnit g) {r x : VarId} (hr : d.representative = some r)
    (hx : x < d.declared.length) :
    (d.push (.assign (.var r) (.use (.var x)))).Sound .perUnit g := by
  obtain ⟨hrt, o, xs, hro, hnull⟩ := h.representative r hr
  have ho : ∀ y, y ≠ r →
      (d.push (.assign (.var r) (.use (.var x)))).body.origins y = d.body.origins y := by
    intro y hy
    rw [origins_push]
    simp [Instruction.originOf?, Instruction.origin?, hy.symm]
  have hother : ∀ {y o'}, d.body.origins y = [.value o'] → (∀ v, o' ≠ .use v) → y ≠ r := by
    rintro y o' hy hv rfl
    rw [hro, List.cons.injEq] at hy
    rcases hnull with rfl | ⟨z, rfl⟩
    · exact hv _ (Origin.value.inj hy.1).symm
    · exact hv _ (Origin.value.inj hy.1).symm
  refine ⟨?_, ?_, ?_, ?_, ?_⟩
  · intro j hj
    rcases List.mem_append.1 hj with hj | hj
    · exact h.inScope j hj
    · rw [List.mem_singleton.1 hj]
      intro y hy
      simp only [Instruction.vars, Place.vars, Expr.vars, Operand.vars, List.singleton_append,
        List.mem_cons, List.not_mem_nil, or_false] at hy
      rcases hy with rfl | rfl
      · exact Body.lt_of_typeOf? hrt
      · exact hx
  · intro y hy
    rw [ho y fun h' => hy (h' ▸ hr)]
    exact h.single y hy
  · intro r' hr'
    cases hr.symm.trans hr'
    refine ⟨hrt, o, xs ++ [x], ?_, hnull⟩
    rw [origins_push, hro]
    simp [Instruction.originOf?, Instruction.origin?, Origin.copy]
  · intro t y hy
    obtain ⟨ht, r', hr', hyo⟩ := h.casts t y hy
    exact ⟨ht, r', hr', by rw [ho y (hother hyo (by simp))]; exact hyo⟩
  · intro y hy
    obtain ⟨ht, hyo⟩ := h.guard y hy
    exact ⟨ht, by rw [ho y (hother hyo (by simp))]; exact hyo⟩

end Sound

/-! ## Objects of the place -/

/-- The instructions that get an object of the place ready: the first value of the variable that
stands for all objects, and the casts of that variable. -/
inductive Preparation (a : Abstraction) (d : Draft) : Instruction → Prop
  | load {f : FieldRef} {r : VarId} : a = .shared f → d.representative = some r →
    Preparation a d (.assign (.var r) (.staticField f))
  | null {r : VarId} : a = .perUnit → d.representative = some r →
    Preparation a d (.assign (.var r) (.use (.const .null)))
  | cast {t : ValueType} {x r : VarId} : (t, x) ∈ d.casts → d.representative = some r →
    Preparation a d (.assign (.var x) (.cast (.var r) t))

/-- `x` holds an object of the place as one of type `t`. -/
def Offers (d : Draft) (t : ValueType) (x : VarId) : Prop :=
  d.representative = some x ∧ d.typeOf? x = some t ∨ (t, x) ∈ d.casts

theorem Sound.origins_of_offers (h : d.Sound a g) {t : ValueType} {x : VarId} (hx : d.Offers t x) :
    (∀ o ∈ d.body.origins x, o.isTaken) ∨ ∃ v, d.body.origins x = [.value (.cast v t)] := by
  rcases hx with ⟨hr, _⟩ | hc
  · exact .inl (h.representative x hr).isTaken
  · obtain ⟨_, r, _, ho⟩ := h.casts t x hc
    exact .inr ⟨_, ho⟩

/-- `v` is what the draft has for a value of a type. -/
def Supplies (d : Draft) : ValueType → Operand → Prop
  | .primitive p, v => v = .const p.one
  | t, v => ∃ x, v = .var x ∧ d.Offers t x

/-- The instruction puts the value of `x` into the place. -/
def Keeps (d : Draft) (a : Abstraction) (x : VarId) (i : Instruction) : Prop :=
  match a with
  | .shared f => i = .assign (.staticField f) (.use (.var x))
  | .perUnit => ∃ r, d.representative = some r ∧ i = .assign (.var r) (.use (.var x))

theorem Keeps.eq_assign {x : VarId} {i : Instruction} (h : d.Keeps a x i) :
    ∃ dest, i = .assign dest (.use (.var x)) := by
  cases a with
  | shared f => exact ⟨_, h⟩
  | perUnit =>
    obtain ⟨r, _, rfl⟩ := h
    exact ⟨_, rfl⟩

theorem Supplies.constant_or_object {t : ValueType} {v : Operand} (h : d.Supplies t v) :
    (∃ p, t = .primitive p ∧ v = .const p.one) ∨ ∃ x, v = .var x ∧ d.Offers t x := by
  cases t with
  | primitive p => exact .inl ⟨p, rfl, h⟩
  | reference _ | array _ _ => exact .inr h

namespace Grows

theorem preparation (h : Grows d d') {i : Instruction} (hi : Preparation a d i) :
    Preparation a d' i := by
  cases hi with
  | load ha hr => exact .load ha (h.representative _ hr)
  | null ha hr => exact .null ha (h.representative _ hr)
  | cast hc hr => exact .cast (h.casts hc) (h.representative _ hr)

theorem offers (h : Grows d d') {t : ValueType} {x : VarId} (hx : d.Offers t x) :
    d'.Offers t x := by
  rcases hx with ⟨hr, ht⟩ | hc
  · exact .inl ⟨h.representative _ hr, h.typeOf? ht⟩
  · exact .inr (h.casts hc)

theorem supplies (h : Grows d d') {t : ValueType} {v : Operand} (hv : d.Supplies t v) :
    d'.Supplies t v := by
  cases t with
  | primitive p => exact hv
  | reference _ | array _ _ =>
    obtain ⟨x, rfl, hx⟩ := hv
    exact ⟨x, rfl, h.offers hx⟩

theorem keeps (h : Grows d d') {x : VarId} {i : Instruction} (hi : d.Keeps a x i) :
    d'.Keeps a x i := by
  cases a with
  | shared f => exact hi
  | perUnit =>
    obtain ⟨r, hr, rfl⟩ := hi
    exact ⟨r, h.representative r hr, rfl⟩

theorem push (d : Draft) (i : Instruction) : Grows d (d.push i) :=
  ⟨List.prefix_refl _, List.Subset.refl _, fun _ h => h, fun _ h => h⟩

theorem assignNew (d : Draft) (t : ValueType) (e : Expr) : Grows d (d.assignNew t e).1 :=
  ⟨List.prefix_append _ _, List.Subset.refl _, fun _ h => h, fun _ h => h⟩

end Grows

theorem typeOf?_assignNew (d : Draft) (t : ValueType) (e : Expr) :
    (d.assignNew t e).1.typeOf? (d.assignNew t e).2 = some t := by
  simp [assignNew, newVar, Draft.push, typeOf?]

theorem lt_assignNew (d : Draft) (t : ValueType) (e : Expr) :
    (d.assignNew t e).2 < (d.assignNew t e).1.declared.length :=
  Body.lt_of_typeOf? (b := (d.assignNew t e).1.body) (typeOf?_assignNew d t e)

/-- `d'` is `d` with nothing written but what gets objects of the place ready. -/
structure Prepares (a : Abstraction) (g : FieldRef) (d d' : Draft) : Prop where
  grows : Grows d d'
  code : ∃ q, d'.code = d.code ++ q ∧ ∀ i ∈ q, Preparation a d' i
  initialized : d'.initialized = d.initialized
  guard : d'.guard = d.guard
  sound : d.Sound a g → d'.Sound a g

namespace Prepares

theorem refl (a : Abstraction) (g : FieldRef) (d : Draft) : Prepares a g d d :=
  ⟨.refl d, ⟨[], by simp, by simp⟩, rfl, rfl, id⟩

theorem trans (h : Prepares a g d d') (h' : Prepares a g d' d'') : Prepares a g d d'' := by
  obtain ⟨q, hq, hp⟩ := h.code
  obtain ⟨q', hq', hp'⟩ := h'.code
  refine ⟨h.grows.trans h'.grows, ⟨q ++ q', by rw [hq', hq, List.append_assoc], ?_⟩,
    h'.initialized.trans h.initialized, h'.guard.trans h.guard, h'.sound ∘ h.sound⟩
  intro i hi
  rcases List.mem_append.1 hi with hi | hi
  · exact h'.grows.preparation (hp i hi)
  · exact hp' i hi

end Prepares

theorem mem_of_lookup {α β : Type} [BEq α] [LawfulBEq α] {k : α} {v : β} :
    ∀ {l : List (α × β)}, l.lookup k = some v → (k, v) ∈ l
  | (k', v') :: l, h => by
    rw [List.lookup_cons] at h
    split at h
    · next hk =>
      cases h
      rw [eq_of_beq hk]
      exact List.mem_cons_self
    · exact List.mem_cons_of_mem _ (mem_of_lookup h)

theorem castTo_prepares (g : FieldRef) {r : VarId} (hr : d.representative = some r)
    (t : ValueType) :
    Prepares a g d (d.castTo r t).1 ∧ (d.castTo r t).1.Offers t (d.castTo r t).2 := by
  unfold castTo
  split
  · next ht => exact ⟨.refl a g d, .inl ⟨hr, ht⟩⟩
  · split
    · next y hy => exact ⟨.refl a g d, .inr (mem_of_lookup hy)⟩
    · refine ⟨⟨?_, ?_, rfl, rfl, ?_⟩, .inr (List.mem_append_right _ (List.mem_singleton.2 rfl))⟩
      · have hg := Grows.assignNew d t (.cast (.var r) t)
        exact ⟨hg.declared, fun p hp => List.mem_append_left _ (hg.casts hp), hg.representative,
          hg.guard⟩
      · refine ⟨_, rfl, ?_⟩
        intro i hi
        rw [List.mem_singleton.1 hi]
        exact .cast (List.mem_append_right _ (List.mem_singleton.2 rfl)) hr
      · intro h
        have hrl : ∀ x ∈ (Expr.cast (.var r) t).vars, x < d.declared.length := by
          intro x hx
          rw [List.mem_singleton.1 hx]
          exact (h.representative r hr).lt
        exact (h.assignNew t hrl).withCast hr (typeOf?_assignNew _ _ _) (h.origins_new t _)

end Draft

namespace Abstraction

open Draft

variable (a : Abstraction) (g : FieldRef) (d : Draft)

/-- The draft with a new variable that stands for all objects, and that variable. -/
def newRepresentative (d : Draft) (t : ValueType) (e : Expr) : Draft × VarId :=
  let (d, x) := d.assignNew t e
  ({ d with representative := some x }, x)

theorem newRepresentative_grows (t : ValueType) (e : Expr) (hn : d.representative = none) :
    Grows d (newRepresentative d t e).1 := by
  have hg := Grows.assignNew d t e
  exact ⟨hg.declared, hg.casts, fun x hx => by simp [hn] at hx, hg.guard⟩

theorem newRepresentative_sound {t : ValueType} {e : Expr} (h : d.Sound a g)
    (hn : d.representative = none) (he : ∀ x ∈ e.vars, x < d.declared.length)
    (hr : ∀ b r, b.typeOf? r = some t → b.origins r = [.value e] → a.Represents b r) :
    (newRepresentative d t e).1.Sound a g := by
  exact (h.assignNew t he).withRepresentative hn
    (hr _ _ (typeOf?_assignNew d t e) (h.origins_new t e))

/-- The type of the variable that stands for all objects, and the value that it gets when it is
asked for before anything is stored in it. -/
def firstValue : Abstraction → ValueType × Expr
  | shared f => (f.type, .staticField f)
  | perUnit => (.object, .use (.const .null))

theorem representative_of_none (hn : d.representative = none) :
    a.representative d = newRepresentative d a.firstValue.1 a.firstValue.2 := by
  cases a with
  | shared f =>
    simp only [representative, hn]
    rfl
  | perUnit =>
    simp only [representative, slot, hn]
    rfl

theorem representative_of_some {r : VarId} (hr : d.representative = some r) :
    a.representative d = (d, r) := by
  cases a with
  | shared f => simp [representative, hr]
  | perUnit => simp [representative, slot, hr]

theorem representative_prepares :
    Prepares a g d (a.representative d).1 ∧
      (a.representative d).1.representative = some (a.representative d).2 := by
  rcases hd : d.representative with _ | r
  · rw [a.representative_of_none d hd]
    refine ⟨⟨newRepresentative_grows d _ _ hd, ⟨_, rfl, ?_⟩, rfl, rfl, fun h => ?_⟩, rfl⟩
    · intro i hi
      rw [List.mem_singleton.1 hi]
      cases a with
      | shared f => exact .load rfl rfl
      | perUnit => exact .null rfl rfl
    · refine newRepresentative_sound a g d h hd ?_ fun b r ht ho => ?_
      · cases a <;> simp [firstValue, Expr.vars, Operand.vars]
      · cases a with
        | shared f => exact ⟨ht, ho⟩
        | perUnit => exact ⟨ht, .null, [], ho, .inl rfl⟩
  · rw [a.representative_of_some d hd]
    exact ⟨.refl a g d, hd⟩

theorem representativeAs_prepares (t : ValueType) :
    Prepares a g d (a.representativeAs d t).1 ∧
      (a.representativeAs d t).1.Offers t (a.representativeAs d t).2 := by
  obtain ⟨hp, hr⟩ := a.representative_prepares g d
  obtain ⟨hp', ho⟩ := castTo_prepares (a := a) g hr t
  exact ⟨hp.trans hp', ho⟩

theorem valueOf_prepares (t : ValueType) :
    Prepares a g d (a.valueOf d t).1 ∧ (a.valueOf d t).1.Supplies t (a.valueOf d t).2 := by
  obtain ⟨hp, ho⟩ := a.representativeAs_prepares g d t
  cases t with
  | primitive p => exact ⟨.refl a g d, rfl⟩
  | reference c => exact ⟨hp, _, rfl, ho⟩
  | array base n => exact ⟨hp, _, rfl, ho⟩

theorem arguments_prepares (ts : List ValueType) :
    Prepares a g d (a.arguments d ts).1 ∧
      List.Forall₂ (a.arguments d ts).1.Supplies ts (a.arguments d ts).2 := by
  induction ts generalizing d with
  | nil => exact ⟨.refl a g d, .nil⟩
  | cons t ts ih =>
    obtain ⟨hp, hv⟩ := a.valueOf_prepares g d t
    obtain ⟨hp', hvs⟩ := ih (a.valueOf d t).1
    exact ⟨hp.trans hp', .cons (hp'.grows.supplies hv) hvs⟩

theorem store_perUnit_of_none (hn : d.representative = none) (x : VarId) :
    perUnit.store d x = (newRepresentative d .object (.use (.var x))).1 := by
  simp only [store, slot, hn]
  rfl

theorem store_perUnit_of_some {r : VarId} (hr : d.representative = some r) (x : VarId) :
    perUnit.store d x = d.push (.assign (.var r) (.use (.var x))) := by
  simp only [store, slot, hr]

theorem store_spec (x : VarId) :
    Grows d (a.store d x) ∧ (∃ i, (a.store d x).code = d.code ++ [i] ∧ (a.store d x).Keeps a x i) ∧
      (a.store d x).initialized = d.initialized ∧ (a.store d x).guard = d.guard := by
  cases a with
  | shared f =>
    have hg := Grows.push d (.assign (.staticField f) (.use (.var x)))
    exact ⟨⟨hg.declared, hg.casts, hg.representative, hg.guard⟩, ⟨_, rfl, rfl⟩, rfl, rfl⟩
  | perUnit =>
    rcases hd : d.representative with _ | r
    · rw [store_perUnit_of_none d hd]
      exact ⟨newRepresentative_grows d _ _ hd, ⟨_, rfl, _, rfl, rfl⟩, rfl, rfl⟩
    · rw [store_perUnit_of_some d hd]
      exact ⟨.push d _, ⟨_, rfl, r, hd, rfl⟩, rfl, rfl⟩

theorem store_sound {x : VarId} (h : d.Sound a g) (hx : x < d.declared.length) :
    (a.store d x).Sound a g := by
  have hv : ∀ y ∈ (Expr.use (.var x)).vars, y < d.declared.length := by
    intro y hy
    rw [List.mem_singleton.1 hy]
    exact hx
  cases a with
  | shared f =>
    have hp := h.push (i := .assign (.staticField f) (.use (.var x))) rfl hv
    exact ⟨hp.inScope, hp.single, hp.representative, hp.casts, hp.guard⟩
  | perUnit =>
    rcases hd : d.representative with _ | r
    · rw [store_perUnit_of_none d hd]
      exact newRepresentative_sound _ g d h hd hv
        fun b r ht ho => ⟨ht, .copy x, [], ho, .inr ⟨x, rfl⟩⟩
    · rw [store_perUnit_of_some d hd]
      exact h.pushCopy hd hx

end Abstraction

end Standin
