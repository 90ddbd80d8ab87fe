import Standin.Proofs.Cutting
import Standin.Text.Hex
import Standin.Text.Quoted

/-!
# Texts that can be told apart

A way to write things is legible if from a text and what comes after it one can tell both the thing
and the place where its text ends (`Legible`). Texts written one after another are legible if each
is and none of them can be mistaken for what follows the last (`Legible.flatMap`), so a format is
legible piece by piece. Numbers, and characters between quotation marks, are.
-/

namespace Standin.Text

/-- A text that ends before the first `d` ends there in one way only. -/
theorem cut_unique {d : Char} {a b r s : List Char} (ha : d ∉ a) (hb : d ∉ b)
    (h : a ++ d :: r = b ++ d :: s) : a = b ∧ r = s := by
  have hsplit : splitAt? [d] (a ++ d :: r) = some (a, r) := splitAt?_char_iff.2 ⟨rfl, ha⟩
  rw [h, splitAt?_char_iff.2 ⟨rfl, hb⟩] at hsplit
  obtain ⟨rfl, rfl⟩ := Prod.mk.inj (Option.some.inj hsplit)
  exact ⟨rfl, rfl⟩

/-- The text does not go on with characters of the kind `p`. -/
def Stops (p : Char → Bool) (s : List Char) : Prop :=
  ∀ c ∈ s.head?, p c = false

variable {p : Char → Bool}

theorem stops_cons {c : Char} (h : p c = false) (s : List Char) : Stops p (c :: s) := by
  simpa [Stops] using h

theorem Stops.mono {q : Char → Bool} {s : List Char} (h : Stops p s) (hqp : ∀ c, q c → p c) :
    Stops q s := by
  intro c hc
  by_contra hq
  exact absurd (hqp c (by simpa using hq)) (by simp [h c hc])

theorem takeWhile_append_stops {a s : List Char} (ha : ∀ c ∈ a, p c) (hs : Stops p s) :
    (a ++ s).takeWhile p = a := by
  rw [List.takeWhile_append_of_pos ha]
  rcases s with _ | ⟨c, s⟩
  · simp
  · rw [List.takeWhile_cons_of_neg (by simp [hs c rfl]), List.append_nil]

/-- A run of characters of one kind ends where another kind begins. -/
theorem span_unique {a b r s : List Char} (ha : ∀ c ∈ a, p c) (hb : ∀ c ∈ b, p c)
    (hr : Stops p r) (hs : Stops p s) (h : a ++ r = b ++ s) : a = b ∧ r = s := by
  have hrun := congrArg (List.takeWhile p) h
  rw [takeWhile_append_stops ha hr, takeWhile_append_stops hb hs] at hrun
  subst hrun
  exact ⟨rfl, List.append_cancel_left h⟩

/-- From the text of a thing that is `ok`, and a rest that is a `stop`, one can tell the thing and
the rest. -/
def Legible {α : Type} (ok : α → Prop) (stop : List Char → Prop) (f : α → List Char) : Prop :=
  ∀ ⦃a b : α⦄, ok a → ok b → ∀ ⦃r s : List Char⦄, stop r → stop s → f a ++ r = f b ++ s →
    a = b ∧ r = s

namespace Legible

variable {α : Type} {ok : α → Prop} {stop : List Char → Prop} {f : α → List Char}

/-- A mark that the text cannot go on with is where it ends. -/
theorem upTo (h : Legible ok (Stops p) f) {d : Char} (hd : p d = false) {a b : α} (ha : ok a)
    (hb : ok b) {r s : List Char} (heq : f a ++ d :: r = f b ++ d :: s) : a = b ∧ r = s := by
  obtain ⟨hab, hrest⟩ := h ha hb (stops_cons hd r) (stops_cons hd s) heq
  exact ⟨hab, (List.cons.inj hrest).2⟩

/-- Texts that end at different marks differ. -/
theorem upTo_ne (h : Legible ok (Stops p) f) {d e : Char} (hd : p d = false) (he : p e = false)
    (hne : d ≠ e) {a b : α} (ha : ok a) (hb : ok b) (r s : List Char) :
    f a ++ d :: r ≠ f b ++ e :: s := by
  intro heq
  exact hne (List.cons.inj (h ha hb (stops_cons hd r) (stops_cons he s) heq).2).1

/-- The same text before each thing changes nothing. -/
theorem after (h : Legible ok stop f) (lead : List Char) :
    Legible ok stop fun a => lead ++ f a := by
  intro a b ha hb r s hr hs heq
  rw [List.append_assoc, List.append_assoc] at heq
  exact h ha hb hr hs (List.append_cancel_left heq)

/-- Texts one after another, of which none is mistaken for what follows the last one. -/
theorem flatMap (h : Legible ok stop f) (hstop : ∀ a, ok a → ∀ r, stop (f a ++ r))
    {as bs : List α} (has : ∀ a ∈ as, ok a) (hbs : ∀ b ∈ bs, ok b) {r s : List Char}
    (hr : stop r) (hs : stop s) (hr' : ∀ a, ok a → ¬f a <+: r) (hs' : ∀ a, ok a → ¬f a <+: s)
    (heq : as.flatMap f ++ r = bs.flatMap f ++ s) : as = bs ∧ r = s := by
  have hrest : ∀ {cs : List α} {t : List Char}, (∀ c ∈ cs, ok c) → stop t →
      stop (cs.flatMap f ++ t) := by
    intro cs t hcs ht
    rcases cs with _ | ⟨c, cs⟩
    · exact ht
    · rw [List.flatMap_cons, List.append_assoc]
      exact hstop c (hcs c List.mem_cons_self) _
  induction as generalizing bs with
  | nil =>
    rcases bs with _ | ⟨b, bs⟩
    · exact ⟨rfl, heq⟩
    · rw [List.flatMap_cons, List.append_assoc] at heq
      exact absurd ⟨_, heq.symm⟩ (hr' b (hbs b List.mem_cons_self))
  | cons a as ih =>
    obtain ⟨ha, has⟩ := List.forall_mem_cons.1 has
    rcases bs with _ | ⟨b, bs⟩
    · rw [List.flatMap_cons, List.append_assoc] at heq
      exact absurd ⟨_, heq⟩ (hs' a ha)
    · obtain ⟨hb, hbs⟩ := List.forall_mem_cons.1 hbs
      rw [List.flatMap_cons, List.flatMap_cons, List.append_assoc, List.append_assoc] at heq
      obtain ⟨hab, htail⟩ := h ha hb (hrest has hr) (hrest hbs hs) heq
      obtain ⟨hlists, hend⟩ := ih has hbs htail
      exact ⟨List.cons_eq_cons.2 ⟨hab, hlists⟩, hend⟩

/-- Texts with a separator between them, up to a mark that no text starts with. -/
theorem intercalate (h : Legible ok stop f) {sep close : Char} (hne : sep ≠ close) {gap : List Char}
    (hsep : ∀ r, stop (sep :: r)) (hclose : ∀ r, stop (close :: r))
    (hfirst : ∀ a, ok a → ∀ r, (f a ++ r).head? ≠ some close)
    {as bs : List α} (has : ∀ a ∈ as, ok a) (hbs : ∀ b ∈ bs, ok b) {r s : List Char}
    (heq : (sep :: gap).intercalate (as.map f) ++ close :: r =
      (sep :: gap).intercalate (bs.map f) ++ close :: s) : as = bs ∧ r = s := by
  have hjoin : ∀ (c : α) (cs : List α), (sep :: gap).intercalate ((c :: cs).map f) =
      f c ++ cs.flatMap fun d => sep :: gap ++ f d := by
    intro c cs
    induction cs generalizing c with
    | nil => simp
    | cons d cs ih => simpa using ih d
  have hmark : ∀ c, ok c → ∀ t, ¬(sep :: gap ++ f c) <+: close :: t := by
    intro c _ t hpre
    exact hne (List.cons_prefix_cons.1 hpre).1
  have hrest : ∀ (cs : List α) (t : List Char),
      stop ((cs.flatMap fun d => sep :: gap ++ f d) ++ close :: t) := by
    intro cs t
    rcases cs with _ | ⟨c, cs⟩
    · exact hclose t
    · exact hsep _
  rcases as with _ | ⟨a, as⟩ <;> rcases bs with _ | ⟨b, bs⟩
  · exact ⟨rfl, (List.cons.inj heq).2⟩
  · rw [hjoin, List.append_assoc] at heq
    exact absurd (congrArg List.head? heq).symm (hfirst b (hbs b List.mem_cons_self) _)
  · rw [hjoin, List.append_assoc] at heq
    exact absurd (congrArg List.head? heq) (hfirst a (has a List.mem_cons_self) _)
  · obtain ⟨ha, has⟩ := List.forall_mem_cons.1 has
    obtain ⟨hb, hbs⟩ := List.forall_mem_cons.1 hbs
    rw [hjoin, hjoin, List.append_assoc, List.append_assoc] at heq
    obtain ⟨hab, htail⟩ := h ha hb (hrest as r) (hrest bs s) heq
    obtain ⟨hlists, hend⟩ := (h.after (sep :: gap)).flatMap (fun c _ t => hsep _) has hbs (hclose r)
      (hclose s) (fun c hc => hmark c hc r) (fun c hc => hmark c hc s) htail
    exact ⟨List.cons_eq_cons.2 ⟨hab, hlists⟩, (List.cons.inj hend).2⟩

end Legible

/-! ## Numbers -/

theorem legible_toDigits : Legible (fun _ => True) (Stops Char.isDigit) (Nat.toDigits 10) := by
  intro m n _ _ r s hr hs h
  have hdigits : ∀ k, ∀ c ∈ Nat.toDigits 10 k, c.isDigit = true := fun k c hc =>
    Nat.isDigit_of_mem_toDigits (by decide) (by decide) hc
  obtain ⟨heq, hrest⟩ := span_unique (hdigits m) (hdigits n) hr hs h
  refine ⟨?_, hrest⟩
  rw [← Nat.ofDigitChars_ten_toDigits (n := m), heq, Nat.ofDigitChars_ten_toDigits]

theorem hexDigit?_digitChar {n : Nat} (h : n < 16) : hexDigit? n.digitChar = some n := by
  have hall : ∀ n : Fin 16, hexDigit? (Nat.digitChar n) = some n.val := by decide
  exact hall ⟨n, h⟩

theorem hexNumber?_toDigits (n : Nat) : hexNumber? (Nat.toDigits 16 n) = some n := by
  induction n using Nat.strongRecOn with
  | _ n ih =>
    rcases Nat.lt_or_ge n 16 with hn | hn
    · rw [Nat.toDigits_of_lt_base hn]
      simp [hexNumber?, numberIn?, hexDigit?_digitChar hn]
    · have hlead := ih (n / 16) (by omega)
      rw [hexNumber?, numberIn?] at hlead
      rw [Nat.toDigits_of_base_le (by decide) hn, hexNumber?, numberIn?, List.foldlM_append, hlead]
      have hdigit := hexDigit?_digitChar (Nat.mod_lt n (by decide : 0 < 16))
      simp only [Option.bind_eq_bind, Option.bind_some, List.foldlM_cons, List.foldlM_nil, hdigit,
        Option.map_some, Option.pure_def, Option.some.injEq]
      omega

theorem isSome_hexDigit? {n : Nat} {c : Char} (h : c ∈ Nat.toDigits 16 n) :
    (hexDigit? c).isSome := by
  induction n using Nat.strongRecOn with
  | _ n ih =>
    rcases Nat.lt_or_ge n 16 with hn | hn
    · rw [Nat.toDigits_of_lt_base hn, List.mem_singleton] at h
      rw [h, hexDigit?_digitChar hn, Option.isSome_some]
    · rw [Nat.toDigits_of_base_le (by decide) hn, List.mem_append, List.mem_singleton] at h
      rcases h with h | rfl
      · exact ih (n / 16) (by omega) h
      · rw [hexDigit?_digitChar (Nat.mod_lt n (by decide)), Option.isSome_some]

/-! ## Characters between quotation marks -/

theorem hex_unique {c d : Char} {r s : List Char}
    (h : Nat.toDigits 16 c.toNat ++ '\x7d' :: r = Nat.toDigits 16 d.toNat ++ '\x7d' :: s) :
    c = d ∧ r = s := by
  have hbrace : ∀ n, '\x7d' ∉ Nat.toDigits 16 n := fun n hmem =>
    absurd (isSome_hexDigit? hmem) (by decide)
  obtain ⟨heq, hrest⟩ := cut_unique (hbrace _) (hbrace _) h
  have hn := hexNumber?_toDigits c.toNat
  rw [heq, hexNumber?_toDigits, Option.some.injEq] at hn
  exact ⟨Char.toNat_inj.1 hn.symm, hrest⟩

/-- The letters of the short escapes, with the characters that they stand for. -/
def escapes : List (Char × Char) :=
  [('0', '\x00'), ('t', '\t'), ('r', '\r'), ('n', '\n'), ('"', '"'), ('\\', '\\')]

theorem escapes_unique {e c d : Char} (hc : (e, c) ∈ escapes) (hd : (e, d) ∈ escapes) :
    c = d ∧ e ≠ 'u' := by
  simp only [escapes, List.mem_cons, Prod.mk.injEq, List.not_mem_nil, or_false] at hc hd
  rcases hc with ⟨rfl, rfl⟩ | ⟨rfl, rfl⟩ | ⟨rfl, rfl⟩ | ⟨rfl, rfl⟩ | ⟨rfl, rfl⟩ | ⟨rfl, rfl⟩ <;>
    simpa [eq_comm] using hd

theorem quotedChar_cases (c : Char) :
    (quotedChar c = [c] ∧ c ≠ '\\' ∧ c ≠ '"') ∨
      (∃ e, quotedChar c = ['\\', e] ∧ (e, c) ∈ escapes) ∨
      quotedChar c = '\\' :: 'u' :: '\x7b' :: (Nat.toDigits 16 c.toNat ++ ['\x7d']) := by
  unfold quotedChar
  split_ifs with h0 ht hr hn hq hb
  · exact .inr (.inl ⟨'0', rfl, by simp [escapes, h0]⟩)
  · exact .inr (.inl ⟨'t', rfl, by simp [escapes, ht]⟩)
  · exact .inr (.inl ⟨'r', rfl, by simp [escapes, hr]⟩)
  · exact .inr (.inl ⟨'n', rfl, by simp [escapes, hn]⟩)
  · exact .inr (.inl ⟨'"', rfl, by simp [escapes, hq]⟩)
  · exact .inr (.inl ⟨'\\', rfl, by simp [escapes, hb]⟩)
  · exact .inr (.inr (by simp))
  · exact .inl ⟨rfl, hb, hq⟩

theorem legible_quotedChar : Legible (fun _ => True) (fun _ => True) quotedChar := by
  intro c d _ _ r s _ _ h
  rcases quotedChar_cases c with ⟨hc, hc', -⟩ | ⟨e, hc, he⟩ | hc <;>
    rcases quotedChar_cases d with ⟨hd, hd', -⟩ | ⟨e', hd, he'⟩ | hd <;>
    rw [hc, hd] at h
  · simpa using h
  · exact absurd (List.cons.inj h).1 hc'
  · exact absurd (List.cons.inj h).1 hc'
  · exact absurd (List.cons.inj h).1.symm hd'
  · obtain ⟨rfl, rfl⟩ : e = e' ∧ r = s := by simpa using h
    exact ⟨(escapes_unique he he').1, rfl⟩
  · exact absurd (List.cons.inj (List.cons.inj h).2).1 (escapes_unique he he).2
  · exact absurd (List.cons.inj h).1.symm hd'
  · exact absurd (List.cons.inj (List.cons.inj h).2).1.symm (escapes_unique he' he').2
  · exact hex_unique (by simpa using h)

/-- A text between quotation marks ends at the first mark that is not written by an escape. -/
theorem quotedChars_unique {a b r s : List Char} (h : quotedChars a ++ r = quotedChars b ++ s) :
    a = b ∧ r = s := by
  have hmark : ∀ c, True → ∀ t, ¬quotedChar c <+: '"' :: t := by
    intro c _ t
    rcases quotedChar_cases c with ⟨hc, -, hc'⟩ | ⟨e, hc, -⟩ | hc <;> rw [hc, List.cons_prefix_cons]
    · exact fun h => hc' h.1
    · exact fun h => absurd h.1 (by decide)
    · exact fun h => absurd h.1 (by decide)
  have hquoted : ∀ a r, quotedChars a ++ r = '"' :: (a.flatMap quotedChar ++ '"' :: r) := by
    intro a r
    simp [quotedChars]
  rw [hquoted, hquoted] at h
  obtain ⟨rfl, heq⟩ := legible_quotedChar.flatMap (fun _ _ _ => trivial) (fun _ _ => trivial)
    (fun _ _ => trivial) trivial trivial (fun c hc => hmark c hc r) (fun c hc => hmark c hc s)
    (List.cons.inj h).2
  exact ⟨rfl, (List.cons.inj heq).2⟩

end Standin.Text
