import Standin.Proofs.ExprText

/-!
# A tidy body is told by its listing

A listing is read from its first line on. The variables are declared up to a blank line, and where
there are none no instruction looks like a declaration (`Body.IsPlain.not_variable_prefix`). Each
instruction is told by its line (`legible_instruction`), a label by its smaller indent, and the
handlers by the word that no instruction begins with (`code_unique`). So bodies with the same
listing are equal (`Body.listing_injective`).
-/

namespace Standin

open Text

variable {vs : List Variable}

/-! ## Instructions -/

theorem incoming_unique {a b : Incoming} {r s : List Char}
    (h : a.text.toList ++ ':' :: r = b.text.toList ++ ':' :: s) : a = b ∧ r = s := by
  have hparameter : ∀ (i : UInt16) (r : List Char), (Incoming.parameter i).text.toList ++ r =
      "@parameter".toList ++ (Nat.toDigits 10 i.toNat ++ r) := by
    intro i r
    simp [Incoming.text]
  cases a <;> cases b
  case parameter.parameter i j =>
    rw [hparameter, hparameter] at h
    obtain ⟨hij, hrest⟩ := legible_toDigits.upTo (by decide) trivial trivial
      (List.append_cancel_left h)
    exact ⟨congrArg Incoming.parameter (UInt16.toNat_inj.1 hij), hrest⟩
  case this.this => exact ⟨rfl, (List.cons.inj (List.append_cancel_left h)).2⟩
  case caughtException.caughtException =>
    exact ⟨rfl, (List.cons.inj (List.append_cancel_left h)).2⟩
  all_goals simp [Incoming.text] at h

namespace Instruction

/-- The names in an instruction are plain, and its variables are among the first `n`. -/
def IsPlain (n : Nat) : Instruction → Prop
  | bind x _ => x < n
  | assign dest value => dest.IsPlain n ∧ value.IsPlain n
  | invoke call => call.IsPlain n
  | throw o => o.IsPlain n
  | branch o _ => o.IsPlain n
  | goto _ => True
  | ret value => ∀ o ∈ value, o.IsPlain n
  | nop => True

/-- What the text of an instruction opens with. -/
def opening : Instruction → Opening
  | bind _ _ | assign _ _ => .var
  | invoke _ => .call
  | throw _ => .throw
  | branch _ _ => .branch
  | goto _ => .goto
  | ret _ => .ret
  | nop => .nop

theorem toList_bind (vs : List Variable) (x : VarId) (source : Incoming) (r : List Char) :
    ((bind x source).text vs).toList ++ r =
      (Variable.nameIn vs x).toList ++ ' ' :: ':' :: '=' :: ' ' :: (source.text.toList ++
        ':' :: ' ' :: ((vs[x]?.elim "" fun v => v.type.text).toList ++ r)) := by
  simp [Instruction.text]

theorem toList_assign (vs : List Variable) (p : Place) (e : Expr) (r : List Char) :
    ((assign p e).text vs).toList ++ r =
      (p.text vs).toList ++ ' ' :: '=' :: ' ' :: ((e.text vs).toList ++ r) := by
  simp [Instruction.text]

theorem toList_throw (vs : List Variable) (o : Operand) (r : List Char) :
    ((throw o).text vs).toList ++ r = "throw".toList ++ ' ' :: ((o.text vs).toList ++ r) := by
  simp [Instruction.text]

theorem toList_branch (vs : List Variable) (o : Operand) (t : Nat) (r : List Char) :
    ((branch o t).text vs).toList ++ r = "if".toList ++ ' ' :: ((o.text vs).toList ++
      ' ' :: ("!= 0 goto label".toList ++ (Nat.toDigits 10 t ++ r))) := by
  simp [Instruction.text, labelText]

theorem toList_goto (vs : List Variable) (t : Nat) (r : List Char) :
    ((goto t).text vs).toList ++ r =
      "goto".toList ++ ' ' :: ("label".toList ++ (Nat.toDigits 10 t ++ r)) := by
  simp [Instruction.text, labelText]

theorem toList_ret (vs : List Variable) (o : Operand) (r : List Char) :
    ((ret (some o)).text vs).toList ++ r = "return".toList ++ ' ' :: ((o.text vs).toList ++ r) := by
  simp [Instruction.text]

end Instruction

/-- A place opens as a variable or as a field. -/
def Opening.ofPlace : Opening → Opening
  | field => var
  | o => o

section

variable (hvs : AreNumbered vs)

include hvs

theorem opening_place {p : Place} (hp : p.IsPlain vs.length) (r : List Char) :
    (Opening.of ((p.text vs).toList ++ r)).ofPlace = .var := by
  rw [← Place.text_toExpr]
  cases p with
  | var x => exact congrArg Opening.ofPlace ((hvs.isVarName hp).opening r)
  | arrayElement x o =>
    rw [Place.toExpr, Expr.toList_arrayElement, (hvs.isVarName hp.1).opening]
    rfl
  | staticField f =>
    rw [Place.toExpr, Expr.text, FieldRef.toList_text]
    rfl
  | instanceField x f =>
    rw [Place.toExpr, Expr.toList_instanceField, (hvs.isVarName hp.1).opening]
    rfl

theorem Instruction.opening_text {i : Instruction} (hi : i.IsPlain vs.length) {r : List Char}
    (hr : IsLineEnd r) : (Opening.of ((i.text vs).toList ++ r)).ofPlace = i.opening := by
  obtain ⟨r, rfl⟩ := hr
  cases i with
  | bind x source =>
    rw [toList_bind, (hvs.isVarName hi).opening]
    rfl
  | assign p e =>
    rw [toList_assign]
    exact opening_place hvs hi.1 _
  | invoke call =>
    rw [Instruction.text, opening_invocation]
    rfl
  | throw o =>
    rw [toList_throw, Opening.of_word_cons (o := .throw) rfl (by decide) (by decide)]
    rfl
  | branch o t =>
    rw [toList_branch, Opening.of_word_cons (o := .branch) rfl (by decide) (by decide)]
    rfl
  | goto t =>
    rw [toList_goto, Opening.of_word_cons (o := .goto) rfl (by decide) (by decide)]
    rfl
  | ret value =>
    cases value with
    | none =>
      rw [Instruction.text, Opening.of_word_cons (o := .ret) rfl (by decide) (by decide)]
      rfl
    | some o =>
      rw [toList_ret, Opening.of_word_cons (o := .ret) rfl (by decide) (by decide)]
      rfl
  | nop =>
    rw [Instruction.text, Opening.of_word_cons (o := .nop) rfl (by decide) (by decide)]
    rfl

theorem legible_instruction :
    Legible (Instruction.IsPlain vs.length) IsLineEnd fun i => (i.text vs).toList := by
  -- a value that comes in is told from one that is assigned by what follows the variable
  have hbind : ∀ {x : VarId} {p : Place} {r s : List Char}, x < vs.length → p.IsPlain vs.length →
      (Variable.nameIn vs x).toList ++ ' ' :: ':' :: r ≠ (p.text vs).toList ++ ' ' :: '=' :: s := by
    intro x p r s hx hp h
    obtain ⟨-, hrest⟩ := (legible_place hvs).upTo (a := .var x) (by decide) hx hp h
    exact absurd (List.cons.inj hrest).1 (by decide)
  rintro i j hi hj _ _ ⟨r, rfl⟩ ⟨s, rfl⟩ h
  have hopening : i.opening = j.opening := by
    rw [← Instruction.opening_text hvs hi ⟨r, rfl⟩, ← Instruction.opening_text hvs hj ⟨s, rfl⟩, h]
  cases i <;> cases j <;> try (cases hopening; done)
  case bind.bind x source y source' =>
    rw [Instruction.toList_bind, Instruction.toList_bind] at h
    obtain ⟨rfl, h₁⟩ := (legible_var hvs).upTo (by decide) hi hj h
    obtain ⟨rfl, hrest⟩ := incoming_unique (by simpa using h₁)
    exact ⟨rfl, List.append_cancel_left (List.cons.inj hrest).2⟩
  case bind.assign x source p e =>
    rw [Instruction.toList_bind, Instruction.toList_assign] at h
    exact absurd h (hbind hi hj.1)
  case assign.bind p e x source =>
    rw [Instruction.toList_bind, Instruction.toList_assign] at h
    exact absurd h.symm (hbind hj hi.1)
  case assign.assign p e p' e' =>
    rw [Instruction.toList_assign, Instruction.toList_assign] at h
    obtain ⟨rfl, h₁⟩ := (legible_place hvs).upTo (by decide) hi.1 hj.1 h
    obtain ⟨rfl, hrest⟩ := legible_expr hvs hi.2 hj.2 ⟨r, rfl⟩ ⟨s, rfl⟩
      (List.cons.inj (List.cons.inj h₁).2).2
    exact ⟨rfl, hrest⟩
  case invoke.invoke call call' =>
    obtain ⟨rfl, hrest⟩ := legible_invocation hvs hi hj trivial trivial h
    exact ⟨rfl, hrest⟩
  case throw.throw o o' =>
    rw [Instruction.toList_throw, Instruction.toList_throw] at h
    obtain ⟨rfl, rfl⟩ := (legible_operand hvs).upTo (by decide) hi hj
      (List.cons.inj (List.append_cancel_left h)).2
    exact ⟨rfl, rfl⟩
  case branch.branch o t o' t' =>
    rw [Instruction.toList_branch, Instruction.toList_branch] at h
    obtain ⟨rfl, h₁⟩ := (legible_operand hvs).upTo (by decide) hi hj
      (List.cons.inj (List.append_cancel_left h)).2
    obtain ⟨rfl, rfl⟩ := legible_toDigits.upTo (by decide) trivial trivial
      (List.append_cancel_left h₁)
    exact ⟨rfl, rfl⟩
  case goto.goto t t' =>
    rw [Instruction.toList_goto, Instruction.toList_goto] at h
    obtain ⟨rfl, rfl⟩ := legible_toDigits.upTo (by decide) trivial trivial
      (List.append_cancel_left (List.cons.inj (List.append_cancel_left h)).2)
    exact ⟨rfl, rfl⟩
  case ret.ret value value' =>
    cases value with
    | none =>
      cases value' with
      | none => exact ⟨rfl, List.append_cancel_left h⟩
      | some o =>
        rw [Instruction.toList_ret] at h
        exact absurd (List.cons.inj (List.append_cancel_left h)).1 (by decide)
    | some o =>
      cases value' with
      | none =>
        rw [Instruction.toList_ret] at h
        exact absurd (List.cons.inj (List.append_cancel_left h)).1 (by decide)
      | some o' =>
        rw [Instruction.toList_ret, Instruction.toList_ret] at h
        obtain ⟨rfl, rfl⟩ := (legible_operand hvs).upTo (by decide) (hi o rfl) (hj o' rfl)
          (List.cons.inj (List.append_cancel_left h)).2
        exact ⟨rfl, rfl⟩
  case nop.nop => exact ⟨rfl, List.append_cancel_left h⟩

end

/-! ## Lines -/

/-- The line of a variable. -/
def variableChars (v : Variable) : List Char :=
  "    ".toList ++ (v.type.text.toList ++ ' ' :: (v.name.toList ++ ';' :: ['\n']))

/-- The line in front of an instruction that is jumped to; none in front of others. -/
def labelChars (targets : List Nat) (i : Nat) : List Char :=
  if i ∈ targets then "  label".toList ++ (Nat.toDigits 10 i ++ ":\n".toList) else []

/-- The line of a handler. -/
def handlerChars (h : Handler) : List Char :=
  "    catch".toList ++ ' ' :: (h.exception.toList ++ ' ' :: ("from label".toList ++
    (Nat.toDigits 10 h.start ++ ' ' :: ("to label".toList ++ (Nat.toDigits 10 h.stop ++
      ' ' :: ("with label".toList ++ (Nat.toDigits 10 h.entry ++ ';' :: ['\n'])))))))

theorem legible_variable :
    Legible (fun v : Variable => v.type.IsPlain ∧ IsVarName v.name) (fun _ => True)
      variableChars := by
  rintro ⟨n, t⟩ ⟨n', t'⟩ ⟨ht, hn⟩ ⟨ht', hn'⟩ r s _ _ h
  simp only [variableChars, List.append_assoc, List.cons_append, List.nil_append] at h
  obtain ⟨rfl, h₁⟩ := legible_type.upTo (by decide) ht ht' (List.append_cancel_left h)
  obtain ⟨rfl, h₂⟩ := legible_varName.upTo (by decide) hn hn' h₁
  exact ⟨rfl, (List.cons.inj h₂).2⟩

theorem legible_handler :
    Legible (fun h : Handler => IsIdentifier h.exception) (fun _ => True) handlerChars := by
  rintro ⟨c, start, stop, entry⟩ ⟨c', start', stop', entry'⟩ hc hc' r s _ _ h
  unfold handlerChars at h
  simp only [List.append_assoc, List.cons_append, List.nil_append] at h
  obtain ⟨rfl, h₁⟩ := legible_identifier.upTo (by decide) hc hc'
    (List.cons.inj (List.append_cancel_left h)).2
  obtain ⟨rfl, h₂⟩ := legible_toDigits.upTo (by decide) trivial trivial
    (List.append_cancel_left h₁)
  obtain ⟨rfl, h₃⟩ := legible_toDigits.upTo (by decide) trivial trivial
    (List.append_cancel_left h₂)
  obtain ⟨rfl, h₄⟩ := legible_toDigits.upTo (by decide) trivial trivial
    (List.append_cancel_left h₃)
  exact ⟨rfl, (List.cons.inj h₄).2⟩

theorem toList_codeText (vs : List Variable) (targets : List Nat) (k : Nat) (i : Instruction)
    (code : List Instruction) (r : List Char) :
    (Body.codeText vs targets k (i :: code)).toList ++ r =
      labelChars targets k ++ ("    ".toList ++ ((i.text vs).toList ++
        ';' :: '\n' :: ((Body.codeText vs targets (k + 1) code).toList ++ r))) := by
  rw [Body.codeText, labelChars]
  split_ifs <;> simp [labelText]

theorem toList_handler (h : Handler) : ("    " ++ h.text ++ ";\n").toList = handlerChars h := by
  unfold Handler.text handlerChars
  simp [labelText]

theorem toList_variable (v : Variable) :
    ("    " ++ v.type.text ++ " " ++ v.name ++ ";\n").toList = variableChars v := by
  unfold variableChars
  simp

/-- The blank line after the variables. -/
def gapChars (vs : List Variable) : List Char :=
  if vs.isEmpty then [] else ['\n']

theorem toList_join_map {α : Type} {f : α → String} {g : α → List Char}
    (h : ∀ a, (f a).toList = g a) (as : List α) :
    (String.join (as.map f)).toList = as.flatMap g := by
  simp only [String.toList_join, List.flatMap_map, h]

theorem Body.toList_text (b : Body) :
    b.text.toList = b.declared.flatMap variableChars ++ (gapChars b.declared ++
      ((codeText b.declared b.targets 0 b.code).toList ++ b.handlers.flatMap handlerChars)) := by
  rw [Body.text, Body.variablesText, gapChars, String.toList_append, String.toList_append,
    String.toList_append, toList_join_map toList_variable, toList_join_map toList_handler]
  split_ifs <;> simp

/-! ## Code -/

/-- What comes after the code: nothing, or the first handler. -/
def IsCodeEnd (r : List Char) : Prop :=
  r = [] ∨ ∃ s, r = "    ".toList ++ ("catch".toList ++ ' ' :: s)

theorem label_unique {ts ts' : List Nat} {k : Nat} {r s : List Char}
    (h : labelChars ts k ++ ("    ".toList ++ r) = labelChars ts' k ++ ("    ".toList ++ s)) :
    r = s := by
  unfold labelChars at h
  split_ifs at h
  · exact List.append_cancel_left (List.append_cancel_left h)
  · simp at h
  · simp at h
  · exact List.append_cancel_left h

section

variable (hvs : AreNumbered vs)

include hvs

theorem not_isCodeEnd {i : Instruction} (hi : i.IsPlain vs.length) (ts : List Nat) (k : Nat)
    (s : List Char) :
    ¬IsCodeEnd (labelChars ts k ++ ("    ".toList ++ ((i.text vs).toList ++ ';' :: s))) := by
  unfold labelChars
  rintro (h | ⟨t, h⟩) <;> split_ifs at h
  · simp at h
  · simp at h
  · simp at h
  · have hopening := Instruction.opening_text hvs hi ⟨s, rfl⟩
    rw [List.nil_append] at h
    rw [List.append_cancel_left h, Opening.of_word_cons (o := .handler) rfl (by decide)
      (by decide)] at hopening
    cases i <;> cases hopening

theorem code_unique {ts ts' : List Nat} {code code' : List Instruction}
    (hcode : ∀ i ∈ code, i.IsPlain vs.length) (hcode' : ∀ i ∈ code', i.IsPlain vs.length) {k : Nat}
    {r s : List Char} (hr : IsCodeEnd r) (hs : IsCodeEnd s)
    (h : (Body.codeText vs ts k code).toList ++ r = (Body.codeText vs ts' k code').toList ++ s) :
    code = code' ∧ r = s := by
  induction code generalizing code' k with
  | nil =>
    rcases code' with _ | ⟨j, code'⟩
    · exact ⟨rfl, h⟩
    · rw [toList_codeText] at h
      obtain rfl : r = _ := h
      exact absurd hr (not_isCodeEnd hvs (hcode' j List.mem_cons_self) ts' k _)
  | cons i code ih =>
    obtain ⟨hi, hcode⟩ := List.forall_mem_cons.1 hcode
    rcases code' with _ | ⟨j, code'⟩
    · rw [toList_codeText] at h
      obtain rfl : s = _ := h.symm
      exact absurd hs (not_isCodeEnd hvs hi ts k _)
    · obtain ⟨hj, hcode'⟩ := List.forall_mem_cons.1 hcode'
      rw [toList_codeText, toList_codeText] at h
      obtain ⟨hij, h₁⟩ := legible_instruction hvs hi hj ⟨_, rfl⟩ ⟨_, rfl⟩ (label_unique h)
      obtain ⟨hcodes, hrest⟩ := ih hcode hcode' (List.cons.inj (List.cons.inj h₁).2).2
      exact ⟨List.cons_eq_cons.2 ⟨hij, hcodes⟩, hrest⟩

end

/-! ## Variables and the code after them -/

theorem opening_label (t : Nat) (r : List Char) :
    Opening.of ("label".toList ++ (Nat.toDigits 10 t ++ r)) = .label := by
  obtain ⟨c, cs, ht, hc⟩ := exists_digit t
  rw [ht]
  exact Opening.of_word rfl (by decide) (stops_cons (isAlpha_of_isDigit hc) _)

/-- An operand that is no variable does not begin as one. -/
theorem not_varName_operand {name : String} (hname : IsVarName name) {o : Operand}
    (ho : o.IsPlain 0) {d : Char} (hd : d.isAlphanum = false) (r s : List Char) :
    name.toList ++ r ≠ (o.text []).toList ++ d :: s := by
  intro h
  have hvs : AreNumbered [] := ⟨by simp, by simp⟩
  have hopening := Operand.opening_text hvs ho (stops_cons hd s)
  rw [← h, hname.opening] at hopening
  rcases o with x | c
  · exact absurd ho (Nat.not_lt_zero x)
  · cases c <;> cases hopening

/-- An instruction without variables is no declaration of one. -/
theorem not_variable_instruction {v : Variable} (hv : v.type.IsPlain ∧ IsVarName v.name)
    {i : Instruction} (hi : i.IsPlain 0) (r s : List Char) :
    v.type.text.toList ++ ' ' :: (v.name.toList ++ ';' :: r) ≠ (i.text []).toList ++ ';' :: s := by
  obtain ⟨ht, hname⟩ := hv
  have hword : ∀ {w r s : List Char}, ' ' ∉ w →
      v.type.text.toList ++ ' ' :: r = w ++ ' ' :: s → r = s := fun hw h =>
    (cut_unique (ht.not_mem_text (by decide)) hw h).2
  -- a line of one word has no blank before its end
  have hshort : ∀ {w : List Char} {r s : List Char}, w.all isTypeChar →
      v.type.text.toList ++ ' ' :: r ≠ w ++ ';' :: s := by
    intro w r s hw h
    obtain ⟨-, hrest⟩ := span_unique ht.isTypeChar (List.all_eq_true.1 hw)
      (stops_cons (by decide) _) (stops_cons (by decide) _) h
    exact absurd (List.cons.inj hrest).1 (by decide)
  intro h
  cases i with
  | bind x source => exact absurd hi (Nat.not_lt_zero x)
  | assign p e =>
    cases p with
    | var x => exact absurd hi.1 (Nat.not_lt_zero x)
    | arrayElement x o => exact absurd hi.1.1 (Nat.not_lt_zero x)
    | instanceField x f => exact absurd hi.1.1 (Nat.not_lt_zero x)
    | staticField f =>
      rw [Instruction.toList_assign, Place.text, FieldRef.toList_text] at h
      exact ht.head?_ne (by decide) _ (congrArg List.head? h)
  | invoke call =>
    rw [Instruction.text, Invocation.toList_text] at h
    have hreceiver : call.receiver = none :=
      Option.eq_none_iff_forall_not_mem.2 fun x hx => Nat.not_lt_zero x (hi.receiver x hx)
    have hrest := hword (space_not_mem_keyword _) h
    have hopening := hname.opening (';' :: r)
    rw [hrest, hreceiver, receiverChars, List.nil_append, MethodRef.toList_text] at hopening
    cases hopening
  | throw o =>
    rw [Instruction.toList_throw] at h
    exact not_varName_operand hname hi (by decide) _ _ (hword (by decide) h)
  | branch o t =>
    rw [Instruction.toList_branch] at h
    exact not_varName_operand hname hi (by decide) _ _ (hword (by decide) h)
  | goto t =>
    rw [Instruction.toList_goto] at h
    have hopening := hname.opening (';' :: r)
    rw [hword (by decide) h, opening_label] at hopening
    cases hopening
  | ret value =>
    cases value with
    | none => exact hshort (by decide) h
    | some o =>
      rw [Instruction.toList_ret] at h
      exact not_varName_operand hname (hi o rfl) (by decide) _ _ (hword (by decide) h)
  | nop => exact hshort (by decide) h

theorem IsVarName.isTypeChar {name : String} (h : IsVarName name) :
    ∀ c ∈ name.toList, isTypeChar c := by
  obtain ⟨t, n, hname⟩ := h
  intro c hc
  apply isTypeChar_of_isAlphanum
  rcases List.mem_cons.1 (hname ▸ hc) with rfl | hc
  · simp [Char.isAlphanum, isAlpha_letter t]
  · simp [Char.isAlphanum, Nat.isDigit_of_mem_toDigits (by decide) (by decide) hc]

theorem not_variable_handler {v : Variable} (hv : v.type.IsPlain ∧ IsVarName v.name) {name : String}
    (hname : IsIdentifier name) (r s : List Char) :
    v.type.text.toList ++ ' ' :: (v.name.toList ++ ';' :: r) ≠
      "catch".toList ++ ' ' :: (name.toList ++ ' ' :: s) := by
  obtain ⟨ht, hvar⟩ := hv
  have hchars : ∀ c ∈ name.toList, isTypeChar c := by
    intro c hc
    simp [isTypeChar, List.all_eq_true.1 hname.chars c hc]
  intro h
  obtain ⟨-, h₁⟩ := cut_unique (ht.not_mem_text (by decide)) (by decide) h
  obtain ⟨-, h₂⟩ := span_unique hvar.isTypeChar hchars (stops_cons (by decide) _)
    (stops_cons (by decide) _) h₁
  exact absurd (List.cons.inj h₂).1 (by decide)

theorem handlers_cases (hs : List Handler) : hs.flatMap handlerChars = [] ∨
    ∃ h ∈ hs, ∃ s, hs.flatMap handlerChars =
      "    ".toList ++ ("catch".toList ++ ' ' :: (h.exception.toList ++ ' ' :: s)) := by
  rcases hs with _ | ⟨h, hs⟩
  · exact .inl rfl
  · refine .inr ⟨h, List.mem_cons_self, ?_⟩
    rw [List.flatMap_cons]
    unfold handlerChars
    simp only [List.append_assoc, List.cons_append]
    exact ⟨_, rfl⟩

theorem isCodeEnd_handlers (hs : List Handler) : IsCodeEnd (hs.flatMap handlerChars) := by
  rcases handlers_cases hs with hnil | ⟨h, -, s, hcons⟩
  · exact .inl hnil
  · exact .inr ⟨_, hcons⟩

/-- A body that declares no variables has no line that declares one. -/
theorem not_variable_prefix {v : Variable} (hv : v.type.IsPlain ∧ IsVarName v.name) {b : Body}
    (hcode : ∀ i ∈ b.code, i.IsPlain 0) (hhandlers : ∀ h ∈ b.handlers, IsIdentifier h.exception) :
    ¬variableChars v <+: (Body.codeText [] b.targets 0 b.code).toList ++
      b.handlers.flatMap handlerChars := by
  rintro ⟨t, h⟩
  have hline : variableChars v ++ t = labelChars [] 0 ++ ("    ".toList ++ (v.type.text.toList ++
      ' ' :: (v.name.toList ++ ';' :: '\n' :: t))) := by
    simp [variableChars, labelChars]
  rw [hline] at h
  rcases hc : b.code with _ | ⟨i, code⟩ <;> rw [hc] at h
  · rcases handlers_cases b.handlers with hnil | ⟨hd, hmem, s, hcons⟩
    · rw [hnil] at h
      simp [Body.codeText, labelChars] at h
    · rw [hcons] at h
      change _ = labelChars [] 0 ++ _ at h
      exact not_variable_handler hv (hhandlers hd hmem) _ _ (label_unique h)
  · rw [toList_codeText] at h
    exact not_variable_instruction hv (hcode i (by simp [hc])) _ _ (label_unique h)

/-! ## Bodies -/

/-- A body with tidy variables that uses no others, has plain names and types, and has no
floating-point constants. -/
structure Body.IsPlain (b : Body) : Prop where
  renumbered : ∃ b₀ : Body, b = b₀.renumber
  declared : ∀ v ∈ b.declared, v.type.IsPlain
  code : ∀ i ∈ b.code, i.IsPlain b.declared.length
  handlers : ∀ h ∈ b.handlers, IsIdentifier h.exception

theorem Body.IsPlain.areNumbered {b : Body} (h : b.IsPlain) : AreNumbered b.declared := by
  obtain ⟨b₀, rfl⟩ := h.renumbered
  exact areNumbered_renumber b₀

/-- No line after the variables declares one more. -/
theorem Body.IsPlain.not_variable_prefix {b : Body} (hb : b.IsPlain) (v : Variable)
    (hv : v.type.IsPlain ∧ IsVarName v.name) :
    ¬variableChars v <+: gapChars b.declared ++ ((codeText b.declared b.targets 0 b.code).toList ++
      b.handlers.flatMap handlerChars) := by
  rcases hd : b.declared with _ | ⟨w, ws⟩
  · exact Standin.not_variable_prefix hv (by simpa [hd] using hb.code) hb.handlers
  · simp [gapChars, variableChars]

/-- A body with tidy variables, plain names and types and no floating-point constants is told by
its listing. -/
theorem Body.listing_injective {b₁ b₂ : Body} (h₁ : b₁.IsPlain) (h₂ : b₂.IsPlain)
    (h : b₁.text = b₂.text) : b₁ = b₂ := by
  have hvars : ∀ b : Body, b.IsPlain → ∀ v ∈ b.declared, v.type.IsPlain ∧ IsVarName v.name :=
    fun b hb v hv => ⟨hb.declared v hv, hb.areNumbered.names v hv⟩
  have htext := congrArg String.toList h
  rw [Body.toList_text, Body.toList_text] at htext
  obtain ⟨hdeclared, hrest⟩ := legible_variable.flatMap (fun _ _ _ => trivial) (hvars b₁ h₁)
    (hvars b₂ h₂) trivial trivial h₁.not_variable_prefix h₂.not_variable_prefix htext
  rw [hdeclared] at hrest
  obtain ⟨hcode, hrest⟩ := code_unique h₂.areNumbered (hdeclared ▸ h₁.code) h₂.code
    (isCodeEnd_handlers _) (isCodeEnd_handlers _) (List.append_cancel_left hrest)
  have hend : ∀ h : Handler, IsIdentifier h.exception → ¬handlerChars h <+: [] := by
    intro h _
    unfold handlerChars
    simp
  obtain ⟨hhandlers, -⟩ := legible_handler.flatMap (r := []) (s := []) (fun _ _ _ => trivial)
    h₁.handlers h₂.handlers trivial trivial hend hend (by simpa using hrest)
  calc b₁ = ⟨b₁.declared, b₁.code, b₁.handlers⟩ := rfl
    _ = b₂ := by rw [hdeclared, hcode, hhandlers]

/-- Two bodies that differ in the order and the names of their variables, and the one listing that
they have when they are tidy. -/
theorem Body.listing_injective_looping :
    let listing := "    java.util.List r0;\n    int i0;\n\n" ++
      "    r0 := @parameter0: java.util.List;\n  label1:\n    i0 = 1;\n" ++
      "    if i0 != 0 goto label1;\n  label3:\n    return r0;\n" ++
      "    catch java.lang.Throwable from label0 to label3 with label3;\n"
    Sample.spacious.renumber.IsPlain ∧ Sample.compact.renumber.IsPlain ∧
      Sample.spacious.renumber.text = listing ∧ Sample.compact.renumber.text = listing ∧
      Sample.spacious.renumber = Sample.compact.renumber := by
  intro listing
  have hlist : (ValueType.reference "java.util.List").IsPlain :=
    ⟨⟨by decide, by decide⟩, by decide, fun p => by cases p <;> decide⟩
  have hint : (ValueType.primitive .int).IsPlain := trivial
  have hplain : ∀ b : Body, b.renumber = Sample.looping
      [⟨"r0", .reference "java.util.List"⟩, ⟨"i0", .primitive .int⟩] 0 1 → b.renumber.IsPlain := by
    intro b hb
    refine ⟨⟨b, rfl⟩, ?_, ?_, ?_⟩ <;> rw [hb]
    · simp [Sample.looping, hlist, hint]
    · simp [Sample.looping, Instruction.IsPlain, Place.IsPlain, Expr.IsPlain, Operand.IsPlain,
        Constant.IsPlain]
    · simpa [Sample.looping] using ⟨by decide, by decide⟩
  have hspacious := hplain Sample.spacious (by decide +kernel)
  have hcompact := hplain Sample.compact (by decide +kernel)
  have htext : Sample.spacious.renumber.text = listing := by decide +kernel
  have htext' : Sample.compact.renumber.text = listing := by decide +kernel
  exact ⟨hspacious, hcompact, htext, htext',
    listing_injective hspacious hcompact (htext.trans htext'.symm)⟩

end Standin
