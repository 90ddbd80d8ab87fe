import Standin.MethodRef.Parser
import Standin.Proofs.TypeText

/-!
# The grammar of signatures

The reader of signatures cuts a text at the first colon with a blank, at the first blank after it
and at the first opening parenthesis. A method whose own parts hold none of these marks is written
so that each cut falls where the writer put the mark, and no other method is ever read. So the
methods that are read back from their signature are those that can be read at all
(`MethodRef.IsCanonical`).
-/

namespace Standin

open Text

/-! ## Parameters -/

namespace ValueType

theorem IsSpelled.text_eq {name : String} {n : Nat} {t : ValueType} (h : t.IsSpelled name n) :
    t.text = name ++ String.join (List.replicate n "[]") := by
  have hnamed : ∀ e : ValueType, e.IsNamed name → e.text = name := by
    intro e he
    cases e with
    | primitive p => exact he
    | reference c => exact he.1
    | array base d => exact he.elim
  cases t with
  | primitive p =>
    obtain ⟨rfl, h⟩ := h
    simp [hnamed _ h]
  | reference c =>
    obtain ⟨rfl, h⟩ := h
    simp [hnamed _ h]
  | array base d =>
    obtain ⟨rfl, -, h⟩ := h
    rw [text, hnamed base h]

/-- Reading adds no characters to the name of a type. -/
theorem mem_of_mem_text {s : String} {t : ValueType} (h : parse s = .ok t) {c : Char}
    (hc : c ∈ t.text.toList) : c ∈ s.toList ∨ c = '[' ∨ c = ']' := by
  obtain ⟨name, n, ⟨lead, pairs, trail, -, -, -, hs⟩, -, -, -, ht⟩ := parse_eq_ok_iff.1 h
  rw [ht.text_eq, String.toList_append, List.mem_append] at hc
  rcases hc with hc | hc
  · rw [hs]
    simp [hc]
  · exact .inr (mem_brackets hc)

end ValueType

namespace MethodRef

theorem mapM_eq_some_iff {α β : Type} {f : α → Option β} {xs : List α} {ys : List β} :
    xs.mapM f = some ys ↔ xs.map f = ys.map some := by
  induction xs generalizing ys with
  | nil => cases ys <;> simp
  | cons x xs ih =>
    simp only [List.mapM_cons, Option.bind_eq_bind, Option.bind_eq_some_iff, Option.pure_def,
      Option.some.injEq, ih]
    cases ys <;> simp

theorem toOption_eq_some {ε α : Type} {x : Except ε α} {a : α} :
    x.toOption = some a ↔ x = .ok a := by
  cases x <;> simp [Except.toOption]

/-- What is read between the parentheses holds no comma. -/
theorem of_parseParams? {s : List Char} {ts : List ValueType} (h : parseParams? s = some ts) :
    ∀ t ∈ ts, t.IsCanonical ∧ ',' ∉ t.text.toList := by
  unfold parseParams? at h
  split at h
  · obtain rfl := Option.some.inj h
    exact nofun
  · have hpieces : ∀ piece ∈ splitOn ',' s, ',' ∉ piece := fun _ => not_mem_of_mem_splitOn
    rw [mapM_eq_some_iff] at h
    intro t ht
    have hsome : some t ∈ ts.map some := List.mem_map_of_mem ht
    rw [← h] at hsome
    obtain ⟨piece, hmem, hpiece⟩ := List.mem_map.1 hsome
    have hparse := toOption_eq_some.1 hpiece
    refine ⟨ValueType.isCanonical_of_parse hparse, fun hc => ?_⟩
    rcases ValueType.mem_of_mem_text hparse hc with hc | hc | hc
    · rw [String.toList_ofList] at hc
      exact hpieces piece hmem hc
    · cases hc
    · cases hc

theorem parseParams?_joined {ts : List ValueType}
    (h : ∀ t ∈ ts, t.IsCanonical ∧ ',' ∉ t.text.toList) :
    parseParams? (joined "," (ts.map ValueType.text)).toList = some ts := by
  have hjoined : (joined "," (ts.map ValueType.text)).toList =
      [','].intercalate (ts.map fun t => t.text.toList) := by
    rw [joined, String.toList_intercalate, List.map_map]
    rfl
  rw [hjoined, parseParams?]
  rcases ts with _ | ⟨t, ts⟩
  · rfl
  · have hne : (t :: ts).map (fun t => t.text.toList) ≠ [] := by simp
    have hcomma : ∀ piece ∈ (t :: ts).map (fun t => t.text.toList), ',' ∉ piece := by
      intro piece hpiece
      obtain ⟨u, hu, rfl⟩ := List.mem_map.1 hpiece
      exact (h u hu).2
    -- the text of a type is not blank, so neither is the list
    have hblank : ¬(trim ([','].intercalate ((t :: ts).map fun t => t.text.toList))).isEmpty := by
      intro hempty
      have hblanks := trim_eq_nil_iff.1 (List.isEmpty_iff.1 hempty)
      have ht := ValueType.parse_text_iff.2 (h t List.mem_cons_self).1
      rw [ValueType.parse_of_isBlanks fun c hc => hblanks c ?_] at ht
      · cases ht
      · cases ts <;> simp [hc]
    rw [if_neg hblank, splitOn_eq, List.splitOn_intercalate ',' hcomma hne, mapM_eq_some_iff,
      List.map_map]
    refine List.map_congr_left fun u hu => ?_
    rw [Function.comp_apply, String.ofList_toList, ValueType.parse_text_iff.2 (h u hu).1]
    rfl

/-! ## Signatures -/

theorem unwrap?_eq_some {opening closing : Char} {s inner : List Char} :
    unwrap? opening closing s = some inner ↔ s = opening :: (inner ++ [closing]) := by
  rcases s with _ | ⟨c, s⟩
  · simp [unwrap?]
  · rw [unwrap?, Option.ite_none_right_eq_some, List.getLast?_eq_some_iff]
    constructor
    · rintro ⟨⟨rfl, ys, rfl⟩, h⟩
      simpa using h
    · intro h
      obtain ⟨rfl, rfl⟩ := List.cons.inj h
      exact ⟨⟨rfl, inner, rfl⟩, by simp⟩

/-- What the reader finds in a text: the class, the rest after it, and in the rest the result type,
the name and the parameters. -/
theorem parse?_eq_some_iff {s : String} {m : MethodRef} :
    parse? s = some m ↔ ∃ className rest result name params : List Char,
      trim s.toList = '<' :: (className ++ ':' :: ' ' :: rest ++ ['>']) ∧
      ¬[':', ' '] <:+: className ∧
      trim rest = result ++ ' ' :: (name ++ '(' :: (params ++ [')'])) ∧
      ' ' ∉ result ∧ '(' ∉ name ∧ trim className ≠ [] ∧ trim name ≠ [] ∧
      ResultType.parse (String.ofList result) = .ok m.result ∧ parseParams? params = some m.params ∧
      m.className = String.ofList (trim className) ∧ m.name = String.ofList (trim name) := by
  unfold parse?
  simp only [Option.bind_eq_bind, Option.bind_eq_some_iff, Prod.exists, unwrap?_eq_some,
    splitAt?_colon_iff, splitAt?_char_iff, Option.bind_some, Option.bind_none,
    Option.ite_none_right_eq_some, Option.ite_none_left_eq_some, Bool.or_eq_true, not_or,
    List.isEmpty_iff, toOption_eq_some, Option.pure_def, Option.some.injEq,
    List.getLast?_eq_some_iff]
  constructor
  · rintro ⟨_, hs, className, rest, ⟨rfl, hclass⟩, result, _, ⟨hrest, hresult⟩, name, _,
      ⟨rfl, hname⟩, ⟨params, rfl⟩, ⟨hc, hn⟩, r, hr, ps, hps, rfl⟩
    rw [List.dropLast_concat] at hps
    exact ⟨className, rest, result, name, params, hs, hclass, hrest, hresult, hname, hc, hn, hr,
      hps, rfl, rfl⟩
  · rintro ⟨className, rest, result, name, params, hs, hclass, hrest, hresult, hname, hc, hn, hr,
      hps, h₁, h₂⟩
    refine ⟨_, hs, className, rest, ⟨rfl, hclass⟩, result, _, ⟨hrest, hresult⟩, name, _,
      ⟨rfl, hname⟩, ⟨params, rfl⟩, ⟨hc, hn⟩, m.result, hr, m.params, ?_, ?_⟩
    · rwa [List.dropLast_concat]
    · rw [← h₁, ← h₂]

theorem parse_eq_ok {s : String} {m : MethodRef} : parse s = .ok m ↔ parse? s = some m := by
  unfold parse
  split <;> simp [*]

end MethodRef

theorem ResultType.isCanonical_of_parse {s : String} {t : ValueType}
    (h : ResultType.parse s = .ok (.value t)) : t.IsCanonical := by
  unfold ResultType.parse at h
  split at h
  · cases h
  · rcases hp : ValueType.parse s with e | u
    · rw [hp] at h
      cases h
    · rw [hp] at h
      obtain rfl := ResultType.value.inj (Except.ok.inj h)
      exact ValueType.isCanonical_of_parse hp

theorem ValueType.IsCanonical.not_isBlank {t : ValueType} (h : t.IsCanonical) :
    ∀ c ∈ t.text.toList, isBlank c = false := by
  cases t with
  | primitive p => exact fun c hc => ((isName_keyword p).1.chars c hc).1
  | reference c => exact fun d hd => (h.1.chars d hd).1
  | array base d =>
    intro c hc
    rw [text, String.toList_append, List.mem_append] at hc
    rcases hc with hc | hc
    · exact (h.2.isNamed.2.1.chars c hc).1
    · rcases mem_brackets hc with rfl | rfl <;> decide

namespace ResultType

variable {r : ResultType}

theorem text_ne (h : ∀ t, r = .value t → t.IsCanonical) : r.text.toList ≠ [] := by
  cases r with
  | void => decide
  | value t =>
    intro hnil
    have hparse := ValueType.parse_text_iff.2 (h t rfl)
    rw [ValueType.parse_of_isBlanks (s := t.text) (by rw [text] at hnil; simp [hnil, IsBlanks])]
      at hparse
    cases hparse

theorem not_isBlank (h : ∀ t, r = .value t → t.IsCanonical) :
    ∀ c ∈ r.text.toList, isBlank c = false := by
  cases r with
  | void => exact fun c hc => (ValueType.isName_void.chars c hc).1
  | value t => exact (h t rfl).not_isBlank

theorem parse_text (h : ∀ t, r = .value t → t.IsCanonical) : ResultType.parse r.text = .ok r := by
  have htrimmed : trimmed r.text = r.text := by
    rw [trimmed, trim_eq_self (isTrimmed_of_forall (not_isBlank h)), String.ofList_toList]
  rw [ResultType.parse, htrimmed]
  cases r with
  | void => rfl
  | value t =>
    have hparse := ValueType.parse_text_iff.2 (h t rfl)
    have hvoid : t.text ≠ "void" := by
      intro hvoid
      have herror : ValueType.parse "void" = .error .void := by decide +kernel
      rw [hvoid, herror] at hparse
      cases hparse
    rw [text, if_neg hvoid, hparse]
    rfl

end ResultType

namespace MethodRef

/-- The parts of a method that its signature tells apart. -/
structure IsCanonical (m : MethodRef) : Prop where
  className : m.className ≠ "" ∧ IsTrimmed m.className.toList ∧
    ¬[':', ' '] <:+: m.className.toList
  name : m.name ≠ "" ∧ IsTrimmed m.name.toList ∧ '(' ∉ m.name.toList
  result : ∀ t, m.result = .value t → t.IsCanonical
  params : ∀ t ∈ m.params, t.IsCanonical ∧ ',' ∉ t.text.toList

theorem isCanonical_of_parse {s : String} {m : MethodRef} (h : parse s = .ok m) :
    m.IsCanonical := by
  obtain ⟨className, rest, result, name, params, -, hclass, -, -, hname, hc, hn, hr, hps, h₁, h₂⟩ :=
    parse?_eq_some_iff.1 (parse_eq_ok.1 h)
  obtain ⟨htrimmed, lead, trail, -, -, hlead⟩ := exists_trim className
  obtain ⟨htrimmed', lead', trail', -, -, hlead'⟩ := exists_trim name
  refine ⟨?_, ?_, fun t ht => ?_, of_parseParams? hps⟩
  · rw [h₁, String.toList_ofList]
    exact ⟨by simpa using hc, htrimmed, fun hin => hclass (hin.trans ⟨lead, trail, hlead.symm⟩)⟩
  · rw [h₂, String.toList_ofList]
    refine ⟨by simpa using hn, htrimmed', fun hin => hname ?_⟩
    rw [hlead']
    simp [hin]
  · rw [ht] at hr
    exact ResultType.isCanonical_of_parse hr

theorem parse_text {m : MethodRef} (h : m.IsCanonical) : parse m.text = .ok m := by
  obtain ⟨⟨hc, hctrim, hcolon⟩, ⟨hn, hntrim, hparen⟩, hresult, hparams⟩ := h
  have hblank := ResultType.not_isBlank hresult
  have hsub : m.subSignature.toList = m.result.text.toList ++ ' ' :: (m.name.toList ++ '(' ::
      ((joined "," (m.params.map ValueType.text)).toList ++ [')'])) := by
    simp [subSignature]
  have htext : m.text.toList =
      '<' :: (m.className.toList ++ ':' :: ' ' :: m.subSignature.toList ++ ['>']) := by
    simp [text]
  have hrest : IsTrimmed m.subSignature.toList := by
    obtain ⟨d, ds, hd⟩ := List.exists_cons_of_ne_nil (ResultType.text_ne hresult)
    have hends := isTrimmed_between (hblank d (by simp [hd])) (d := ')') (by decide)
      (ds ++ ' ' :: (m.name.toList ++ '(' :: (joined "," (m.params.map ValueType.text)).toList))
    rw [hsub, hd]
    simpa using hends
  have hwhole : IsTrimmed m.text.toList := htext ▸ isTrimmed_between (by decide) (by decide) _
  refine parse_eq_ok.2 (parse?_eq_some_iff.2 ?_)
  refine ⟨m.className.toList, m.subSignature.toList, m.result.text.toList, m.name.toList,
    (joined "," (m.params.map ValueType.text)).toList, ?_⟩
  rw [trim_eq_self hwhole, trim_eq_self hrest, trim_eq_self hctrim, trim_eq_self hntrim]
  refine ⟨htext, hcolon, hsub, fun hsp => ?_, hparen, by simpa using hc, by simpa using hn, ?_,
    parseParams?_joined hparams, by simp, by simp⟩
  · exact absurd (hblank ' ' hsp) (by decide)
  · rw [String.ofList_toList]
    exact ResultType.parse_text hresult

theorem parse_text_iff {m : MethodRef} : parse m.text = .ok m ↔ m.IsCanonical :=
  ⟨isCanonical_of_parse, parse_text⟩

/-- The methods that are read back from their signature are the canonical ones, and no others are
read from any text. -/
theorem parse_signature :
    (∀ m : MethodRef, parse m.text = .ok m ↔ m.IsCanonical) ∧
      ∀ (s : String) (m : MethodRef), parse s = .ok m → m.IsCanonical ∧ parse m.text = .ok m := by
  refine ⟨fun m => parse_text_iff, fun s m h => ?_⟩
  have hm := isCanonical_of_parse h
  exact ⟨hm, parse_text hm⟩

/-- A signature with blanks where the reader allows them, and with marks inside the class and the
name. -/
theorem parse_signature_spaced :
    parse "\t<a::b : \tvoid  <init>: x ( int [] ,b.C)> " =
        .ok ⟨"a::b", "<init>: x", [.array (.primitive .int) 1, .reference "b.C"], .void⟩ ∧
      parse "<a::b: void <init>: x(int[],b.C)>" =
        .ok ⟨"a::b", "<init>: x", [.array (.primitive .int) 1, .reference "b.C"], .void⟩ := by
  have hread : parse "\t<a::b : \tvoid  <init>: x ( int [] ,b.C)> " =
      .ok ⟨"a::b", "<init>: x", [.array (.primitive .int) 1, .reference "b.C"], .void⟩ := by
    decide +kernel
  exact ⟨hread, (parse_signature.2 _ _ hread).2⟩

end MethodRef

end Standin
