import Standin.Body.Codec
import Standin.Proofs.OperandText

/-!
# Expressions in a listing

Calls, allocations of arrays and all other expressions are legible, and so are places, which are
written as the expressions that read them. Expressions of different kinds open in different ways,
but for those that begin with an operand: a field or an element of a variable is told by the mark
after the variable, and a binary operation by the blank after its first operand.
-/

namespace Standin

open Text

variable {vs : List Variable}

/-! ## Calls -/

/-- The names in a call are plain, and its variables are among the first `n`. -/
structure Invocation.IsPlain (n : Nat) (i : Invocation) : Prop where
  callee : i.callee.IsPlain
  receiver : ∀ x ∈ i.receiver, x < n
  args : ∀ o ∈ i.args, o.IsPlain n

/-- A word out of a list of different ones ends at the blank after it. -/
theorem word_unique {α : Type} (all : List α) (word : α → String)
    (hread : ∀ a, all.find? (fun b => word b = word a) = some a)
    (hspace : ∀ a, ' ' ∉ (word a).toList) {a b : α} {r s : List Char}
    (h : (word a).toList ++ ' ' :: r = (word b).toList ++ ' ' :: s) : a = b ∧ r = s := by
  obtain ⟨hword, hrest⟩ := cut_unique (hspace a) (hspace b) h
  have ha := hread a
  rw [String.toList_inj.1 hword, hread b] at ha
  exact ⟨(Option.some.inj ha).symm, hrest⟩

theorem space_not_mem_keyword (d : Dispatch) : ' ' ∉ d.keyword.toList := by
  cases d <;> decide

theorem keyword_unique {d d' : Dispatch} {r s : List Char}
    (h : d.keyword.toList ++ ' ' :: r = d'.keyword.toList ++ ' ' :: s) : d = d' ∧ r = s :=
  word_unique Dispatch.all Dispatch.keyword (fun d => by cases d <;> rfl) space_not_mem_keyword h

theorem symbol_unique {op op' : BinaryOp} {r s : List Char}
    (h : op.symbol.toList ++ ' ' :: r = op'.symbol.toList ++ ' ' :: s) : op = op' ∧ r = s :=
  word_unique BinaryOp.all BinaryOp.symbol (fun op => by cases op <;> rfl)
    (fun op => by cases op <;> decide) h

/-- The receiver in front of a callee, if there is one. -/
def receiverChars (vs : List Variable) : Option VarId → List Char
  | none => []
  | some x => (Variable.nameIn vs x).toList ++ ['.']

theorem Invocation.toList_text (vs : List Variable) (i : Invocation) (r : List Char) :
    (i.text vs).toList ++ r = i.dispatch.keyword.toList ++ ' ' :: (receiverChars vs i.receiver ++
      (i.callee.text.toList ++ '(' :: ([',', ' '].intercalate
        (i.args.map fun o => (o.text vs).toList) ++ ')' :: r))) := by
  unfold Invocation.text receiverChars
  cases i.receiver <;> simp [joined, String.toList_intercalate, Function.comp_def]

section

variable (hvs : AreNumbered vs)

include hvs

theorem legible_receiver :
    Legible (fun x : Option VarId => ∀ z ∈ x, z < vs.length) (fun r => r.head? = some '<')
      (receiverChars vs) := by
  -- a receiver opens as a variable, and without one the signature comes at once
  have hname : ∀ z, z < vs.length → ∀ r s : List Char, s.head? = some '<' →
      receiverChars vs (some z) ++ r ≠ s := by
    intro z hz r s hs h
    obtain ⟨s, rfl⟩ : ∃ s', s = '<' :: s' := List.head?_eq_some_iff.1 hs
    have hopening := (hvs.isVarName hz).opening ('.' :: r)
    rw [receiverChars, List.append_assoc] at h
    rw [← List.singleton_append, h] at hopening
    cases hopening
  intro x y hx hy r s hr hs h
  rcases x with _ | x <;> rcases y with _ | y
  · exact ⟨rfl, h⟩
  · exact absurd h.symm (hname y (hy y rfl) _ _ hr)
  · exact absurd h (hname x (hx x rfl) _ _ hs)
  · simp only [receiverChars, List.append_assoc, List.singleton_append] at h
    obtain ⟨rfl, hrest⟩ := (legible_var hvs).upTo (by decide) (hx x rfl) (hy y rfl) h
    exact ⟨rfl, hrest⟩

theorem legible_invocation :
    Legible (Invocation.IsPlain vs.length) (fun _ => True) fun i => (i.text vs).toList := by
  rintro ⟨d, m, x, os⟩ ⟨d', m', x', os'⟩ hi hi' r s _ _ h
  rw [Invocation.toList_text, Invocation.toList_text] at h
  obtain ⟨rfl, h₁⟩ := keyword_unique h
  obtain ⟨rfl, h₂⟩ := legible_receiver hvs hi.receiver hi'.receiver
    (m.head?_text _) (m'.head?_text _) h₁
  obtain ⟨rfl, h₃⟩ := legible_method hi.callee hi'.callee trivial trivial h₂
  obtain ⟨rfl, h₄⟩ := (legible_operand hvs).intercalate (by decide) (stops_cons (by decide))
    (stops_cons (by decide)) (fun o ho => o.head?_ne hvs ho rfl rfl) hi.args hi'.args
    (List.cons.inj h₃).2
  exact ⟨rfl, h₄⟩

end

/-! ## Arrays -/

/-- A length or an index. -/
def bracketChars (vs : List Variable) (o : Operand) : List Char :=
  '[' :: ((o.text vs).toList ++ [']'])

/-- The two forms of an allocation. -/
theorem newArrayText_cases (vs : List Variable) (t : ValueType) (lengths : List Operand) :
    (∃ base o, t = .array base 1 ∧ lengths = [o] ∧ ∀ r, (newArrayText vs t lengths).toList ++ r =
      "newarray".toList ++ ' ' :: '(' :: (base.text.toList ++ ')' :: (bracketChars vs o ++ r))) ∨
    ∀ r, (newArrayText vs t lengths).toList ++ r = "newmultiarray".toList ++
      ' ' :: '(' :: (t.text.toList ++ ')' :: (lengths.flatMap (bracketChars vs) ++ r)) := by
  unfold newArrayText
  split
  · next base o => exact .inl ⟨base, o, rfl, rfl, fun r => by simp [bracketChars]⟩
  · right
    intro r
    simp [List.flatMap_map]
    rfl

section

variable (hvs : AreNumbered vs)

include hvs

theorem legible_bracket :
    Legible (Operand.IsPlain vs.length) (fun _ => True) (bracketChars vs) := by
  intro o o' ho ho' r s _ _ h
  simp only [bracketChars, List.cons_append, List.append_assoc, List.nil_append] at h
  obtain ⟨rfl, hrest⟩ := (legible_operand hvs).upTo (by decide) ho ho' (List.cons.inj h).2
  exact ⟨rfl, hrest⟩

theorem legible_newArray :
    Legible (fun e : ValueType × List Operand => e.1.IsPlain ∧ ∀ o ∈ e.2, o.IsPlain vs.length)
      (Stops isTypeChar) fun e => (newArrayText vs e.1 e.2).toList := by
  have hend : ∀ {r : List Char}, Stops isTypeChar r → ∀ o, o.IsPlain vs.length →
      ¬bracketChars vs o <+: r := by
    rintro r hr o - ⟨t, rfl⟩
    exact absurd (hr '[' rfl) (by decide)
  rintro ⟨t, os⟩ ⟨t', os'⟩ ⟨ht, hos⟩ ⟨ht', hos'⟩ r s hr hs h
  rcases newArrayText_cases vs t os with ⟨base, o, rfl, rfl, hlist⟩ | hlist <;>
    rcases newArrayText_cases vs t' os' with ⟨base', o', rfl, rfl, hlist'⟩ | hlist' <;>
    simp only [hlist, hlist'] at h
  · obtain ⟨rfl, h₁⟩ := legible_type.upTo (by decide) ht.2.2 ht'.2.2
      (List.cons.inj (List.cons.inj (List.append_cancel_left h)).2).2
    obtain ⟨rfl, hrest⟩ := legible_bracket hvs (hos o (by simp)) (hos' o' (by simp)) trivial trivial
      h₁
    exact ⟨rfl, hrest⟩
  · simp at h
  · simp at h
  · obtain ⟨rfl, h₁⟩ := legible_type.upTo (by decide) ht ht'
      (List.cons.inj (List.cons.inj (List.append_cancel_left h)).2).2
    obtain ⟨rfl, hrest⟩ := (legible_bracket hvs).flatMap (fun _ _ _ => trivial) hos hos' trivial
      trivial (hend hr) (hend hs) h₁
    exact ⟨rfl, hrest⟩

end

/-! ## Expressions -/

/-- The names in an expression are plain, and its variables are among the first `n`. -/
def Expr.IsPlain (n : Nat) : Expr → Prop
  | use o => o.IsPlain n
  | new c => IsIdentifier c
  | newArray t lengths => t.IsPlain ∧ ∀ o ∈ lengths, o.IsPlain n
  | cast o t => o.IsPlain n ∧ t.IsPlain
  | staticField f => f.IsPlain
  | instanceField x f => x < n ∧ f.IsPlain
  | arrayElement x index => x < n ∧ index.IsPlain n
  | invoke call => call.IsPlain n
  | binary _ left right => left.IsPlain n ∧ right.IsPlain n

/-- All operands open alike. -/
def Opening.ofOperand : Opening → Opening
  | number | string | classOf | null => var
  | o => o

/-- What the text of an expression opens with. -/
def Expr.opening : Expr → Opening
  | new _ => .new
  | newArray _ _ => .newArray
  | cast _ _ => .cast
  | staticField _ => .field
  | invoke _ => .call
  | _ => .var

theorem Expr.toList_instanceField (vs : List Variable) (x : VarId) (f : FieldRef) (r : List Char) :
    ((Expr.instanceField x f).text vs).toList ++ r =
      (Variable.nameIn vs x).toList ++ '.' :: (f.text.toList ++ r) := by
  simp [Expr.text, instanceFieldText]

theorem Expr.toList_arrayElement (vs : List Variable) (x : VarId) (o : Operand) (r : List Char) :
    ((Expr.arrayElement x o).text vs).toList ++ r =
      (Variable.nameIn vs x).toList ++ (bracketChars vs o ++ r) := by
  simp [Expr.text, elementText, bracketChars]

theorem Expr.toList_binary (vs : List Variable) (op : BinaryOp) (o o' : Operand) (r : List Char) :
    ((Expr.binary op o o').text vs).toList ++ r =
      (o.text vs).toList ++ ' ' :: (op.symbol.toList ++ ' ' :: ((o'.text vs).toList ++ r)) := by
  simp [Expr.text]

theorem Expr.toList_new (vs : List Variable) (c : String) (r : List Char) :
    ((Expr.new c).text vs).toList ++ r = "new".toList ++ ' ' :: (c.toList ++ r) := by
  simp [Expr.text]

theorem Expr.toList_cast (vs : List Variable) (o : Operand) (t : ValueType) (r : List Char) :
    ((Expr.cast o t).text vs).toList ++ r =
      '(' :: (t.text.toList ++ ')' :: ' ' :: ((o.text vs).toList ++ r)) := by
  simp [Expr.text]

theorem opening_invocation (vs : List Variable) (i : Invocation) (r : List Char) :
    Opening.of ((i.text vs).toList ++ r) = .call := by
  rw [Invocation.toList_text]
  cases i.dispatch <;> exact Opening.of_word_cons rfl (by decide) (by decide) _

theorem opening_newArray (vs : List Variable) (t : ValueType) (os : List Operand) (r : List Char) :
    Opening.of ((newArrayText vs t os).toList ++ r) = .newArray := by
  rcases newArrayText_cases vs t os with ⟨base, o, -, -, hlist⟩ | hlist <;> rw [hlist] <;>
    exact Opening.of_word_cons rfl (by decide) (by decide) _

/-- Expressions but for binary operations, which begin as their first operand does. -/
def Expr.IsSimple (e : Expr) : Prop :=
  ∀ op left right, e ≠ .binary op left right

theorem Expr.isSimple_use (o : Operand) : (use o).IsSimple := fun _ _ _ => Expr.noConfusion

theorem Expr.isSimple_or (e : Expr) : e.IsSimple ∨ ∃ op o o', e = binary op o o' := by
  by_cases h : ∃ op o o', e = binary op o o'
  · exact .inr h
  · exact .inl fun op o o' he => h ⟨op, o, o', he⟩

section

variable (hvs : AreNumbered vs)

include hvs

theorem Expr.opening_text {e : Expr} (he : e.IsPlain vs.length) {r : List Char}
    (hr : Stops isTypeChar r) : (Opening.of ((e.text vs).toList ++ r)).ofOperand = e.opening := by
  have hoperand : ∀ o : Operand, o.IsPlain vs.length → ∀ r, Stops Char.isAlphanum r →
      (Opening.of ((o.text vs).toList ++ r)).ofOperand = .var := by
    intro o ho r hr
    rw [Operand.opening_text hvs ho hr]
    rcases o with x | c
    · rfl
    · cases c <;> rfl
  cases e with
  | use o => exact hoperand o he r hr.alphanum
  | new c =>
    rw [Expr.toList_new, Opening.of_word_cons (o := .new) rfl (by decide) (by decide)]
    rfl
  | newArray t os => exact congrArg Opening.ofOperand (opening_newArray vs t os r)
  | cast o t =>
    rw [Expr.toList_cast]
    rfl
  | staticField f =>
    rw [Expr.text, FieldRef.toList_text]
    rfl
  | instanceField x f =>
    rw [Expr.toList_instanceField]
    exact congrArg Opening.ofOperand ((hvs.isVarName he.1).opening _)
  | arrayElement x o =>
    rw [Expr.toList_arrayElement]
    exact congrArg Opening.ofOperand ((hvs.isVarName he.1).opening _)
  | invoke i => exact congrArg Opening.ofOperand (opening_invocation vs i r)
  | binary op o o' =>
    rw [Expr.toList_binary]
    exact hoperand o he.1 _ (stops_cons (by decide) _)

theorem legible_simple :
    Legible (fun e : Expr => e.IsPlain vs.length ∧ e.IsSimple) (Stops isTypeChar)
      fun e => (e.text vs).toList := by
  -- an operand that ends is no variable with something after it
  have hbase : ∀ {o : Operand} {x : VarId} {d : Char} {r s : List Char}, o.IsPlain vs.length →
      x < vs.length → Stops isTypeChar r → isTypeChar d → d.isAlphanum = false →
      (o.text vs).toList ++ r ≠ (Variable.nameIn vs x).toList ++ d :: s := by
    intro o x d r s ho hx hr hd hd' h
    obtain ⟨-, rfl⟩ := legible_operand hvs (b := .var x) ho hx hr.alphanum (stops_cons hd' _) h
    exact absurd hd (by simp [hr d rfl])
  rintro e e' ⟨he, hsimple⟩ ⟨he', hsimple'⟩ r s hr hs h
  have hopening : e.opening = e'.opening := by
    rw [← Expr.opening_text hvs he hr, ← Expr.opening_text hvs he' hs, h]
  cases e <;> cases e' <;> try first
    | (cases hopening; done)
    | exact absurd rfl (hsimple _ _ _)
    | exact absurd rfl (hsimple' _ _ _)
  case use.use o o' =>
    obtain ⟨rfl, hrest⟩ := legible_operand hvs he he' hr.alphanum hs.alphanum h
    exact ⟨rfl, hrest⟩
  case use.instanceField o x f =>
    rw [Expr.toList_instanceField] at h
    exact absurd h (hbase he he'.1 hr (by decide) (by decide))
  case use.arrayElement o x o' =>
    rw [Expr.toList_arrayElement] at h
    exact absurd h (hbase he he'.1 hr (by decide) (by decide))
  case instanceField.use x f o =>
    rw [Expr.toList_instanceField] at h
    exact absurd h.symm (hbase he' he.1 hs (by decide) (by decide))
  case arrayElement.use x o' o =>
    rw [Expr.toList_arrayElement] at h
    exact absurd h.symm (hbase he' he.1 hs (by decide) (by decide))
  case new.new c c' =>
    rw [Expr.toList_new, Expr.toList_new] at h
    obtain ⟨rfl, hrest⟩ := legible_identifier he he' hr.identifier hs.identifier
      (List.cons.inj (List.append_cancel_left h)).2
    exact ⟨rfl, hrest⟩
  case newArray.newArray t os t' os' =>
    obtain ⟨heq, hrest⟩ := legible_newArray hvs (a := (t, os)) (b := (t', os')) he he' hr hs h
    obtain ⟨rfl, rfl⟩ := Prod.mk.inj heq
    exact ⟨rfl, hrest⟩
  case cast.cast o t o' t' =>
    rw [Expr.toList_cast, Expr.toList_cast] at h
    obtain ⟨rfl, h₁⟩ := legible_type.upTo (by decide) he.2 he'.2 (List.cons.inj h).2
    obtain ⟨rfl, hrest⟩ := legible_operand hvs he.1 he'.1 hr.alphanum hs.alphanum
      (List.cons.inj h₁).2
    exact ⟨rfl, hrest⟩
  case staticField.staticField f f' =>
    obtain ⟨rfl, hrest⟩ := legible_field he he' trivial trivial h
    exact ⟨rfl, hrest⟩
  case instanceField.instanceField x f y f' =>
    rw [Expr.toList_instanceField, Expr.toList_instanceField] at h
    obtain ⟨rfl, h₁⟩ := (legible_var hvs).upTo (by decide) he.1 he'.1 h
    obtain ⟨rfl, hrest⟩ := legible_field he.2 he'.2 trivial trivial h₁
    exact ⟨rfl, hrest⟩
  case instanceField.arrayElement x f y o =>
    rw [Expr.toList_instanceField, Expr.toList_arrayElement] at h
    exact absurd h ((legible_var hvs).upTo_ne rfl rfl (by decide) he.1 he'.1 _ _)
  case arrayElement.instanceField x o y f =>
    rw [Expr.toList_instanceField, Expr.toList_arrayElement] at h
    exact absurd h ((legible_var hvs).upTo_ne rfl rfl (by decide) he.1 he'.1 _ _)
  case arrayElement.arrayElement x o y o' =>
    rw [Expr.toList_arrayElement, Expr.toList_arrayElement] at h
    obtain ⟨rfl, h₁⟩ := legible_var hvs he.1 he'.1 (stops_cons (by decide) _)
      (stops_cons (by decide) _) h
    obtain ⟨rfl, hrest⟩ := legible_bracket hvs he.2 he'.2 trivial trivial h₁
    exact ⟨rfl, hrest⟩
  case invoke.invoke i i' =>
    obtain ⟨rfl, hrest⟩ := legible_invocation hvs he he' trivial trivial h
    exact ⟨rfl, hrest⟩

/-- What comes after an instruction in its line. -/
def IsLineEnd (r : List Char) : Prop :=
  ∃ s, r = ';' :: s

theorem legible_expr :
    Legible (Expr.IsPlain vs.length) IsLineEnd fun e => (e.text vs).toList := by
  -- the first operand of a binary operation is an expression of its own, but no line ends after it
  have hbinary : ∀ {op : BinaryOp} {o o' : Operand} {e : Expr} {r s : List Char},
      (Expr.binary op o o').IsPlain vs.length → e.IsPlain vs.length → e.IsSimple →
      ((Expr.binary op o o').text vs).toList ++ r ≠ (e.text vs).toList ++ ';' :: s := by
    intro op o o' e r s hb he hsimple
    rw [Expr.toList_binary]
    exact (legible_simple hvs).upTo_ne (a := .use o) (by decide) (by decide) (by decide)
      ⟨hb.1, Expr.isSimple_use o⟩ ⟨he, hsimple⟩ _ _
  rintro e e' he he' _ _ ⟨r, rfl⟩ ⟨s, rfl⟩ h
  rcases e.isSimple_or with hsimple | ⟨op, o₁, o₂, rfl⟩ <;>
    rcases e'.isSimple_or with hsimple' | ⟨op', o₁', o₂', rfl⟩
  · exact legible_simple hvs ⟨he, hsimple⟩ ⟨he', hsimple'⟩ (stops_cons (by decide) _)
      (stops_cons (by decide) _) h
  · exact absurd h.symm (hbinary he' he hsimple)
  · exact absurd h (hbinary he he' hsimple')
  · rw [Expr.toList_binary, Expr.toList_binary] at h
    obtain ⟨rfl, h₁⟩ := (legible_operand hvs).upTo (by decide) he.1 he'.1 h
    obtain ⟨rfl, h₂⟩ := symbol_unique h₁
    obtain ⟨rfl, hrest⟩ := legible_operand hvs he.2 he'.2 (stops_cons (by decide) _)
      (stops_cons (by decide) _) h₂
    exact ⟨rfl, hrest⟩

end

/-! ## Places -/

namespace Place

/-- The names in a place are plain, and its variables are among the first `n`. -/
def IsPlain (n : Nat) : Place → Prop
  | var x => x < n
  | arrayElement x index => x < n ∧ index.IsPlain n
  | staticField f => f.IsPlain
  | instanceField x f => x < n ∧ f.IsPlain

/-- The expression that reads a place. -/
def toExpr : Place → Expr
  | var x => .use (.var x)
  | arrayElement x o => .arrayElement x o
  | staticField f => .staticField f
  | instanceField x f => .instanceField x f

theorem text_toExpr (vs : List Variable) (p : Place) : p.toExpr.text vs = p.text vs := by
  cases p <;> rfl

theorem isPlain_toExpr {n : Nat} {p : Place} (h : p.IsPlain n) :
    p.toExpr.IsPlain n ∧ p.toExpr.IsSimple := by
  cases p <;> exact ⟨h, fun _ _ _ => Expr.noConfusion⟩

theorem toExpr_injective {p q : Place} (h : p.toExpr = q.toExpr) : p = q := by
  cases p <;> cases q <;> simp_all [toExpr]

end Place

theorem legible_place (hvs : AreNumbered vs) :
    Legible (Place.IsPlain vs.length) (Stops isTypeChar) fun p => (p.text vs).toList := by
  intro p q hp hq r s hr hs h
  simp only [← Place.text_toExpr] at h
  obtain ⟨heq, hrest⟩ := legible_simple hvs (Place.isPlain_toExpr hp) (Place.isPlain_toExpr hq) hr
    hs h
  exact ⟨Place.toExpr_injective heq, hrest⟩

end Standin
