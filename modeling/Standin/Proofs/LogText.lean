import Standin.Proofs.Cutting
import Standin.Proofs.FirstOccurrence
import Standin.ReflectionLog

/-!
# What the text of a log says

A text has lines (`Text.HasLines`), and each line of a log is read by itself. A line with anything
in it has to have a semicolon; the text is refused at the first line that has none. Otherwise the
targets of a kind are what the lines name for that kind (`ReflectionKind.target?`), each once and in
the order of first occurrence (`ReflectionLog.Tells`). So a text that is cut after a line feed is
read part by part.
-/

namespace Standin

namespace Text

/-! ## Lines -/

/-- The lines of a text. A line ends at a line feed, to which a carriage return right before it
belongs. -/
inductive HasLines : List Char → List (List Char) → Prop
  | nil : HasLines [] []
  /-- What follows the last line feed is a line if there is anything. -/
  | last {line : List Char} : line ≠ [] → '\n' ∉ line → HasLines line [line]
  | feed {line s : List Char} {ls : List (List Char)} : '\n' ∉ line →
    line.getLast? ≠ some '\r' → HasLines s ls → HasLines (line ++ '\n' :: s) (line :: ls)
  | returnFeed {line s : List Char} {ls : List (List Char)} : '\n' ∉ line →
    HasLines s ls → HasLines (line ++ '\r' :: '\n' :: s) (line :: ls)

theorem dropReturn_concat (line : List Char) : dropReturn (line ++ ['\r']) = line := by
  simp [dropReturn]

theorem dropReturn_eq_self {line : List Char} (h : line.getLast? ≠ some '\r') :
    dropReturn line = line :=
  if_neg h

theorem lines_cut {line : List Char} (h : '\n' ∉ line) (s : List Char) :
    lines (line ++ '\n' :: s) = dropReturn line :: lines s := by
  have hne : splitOn '\n' s ≠ [] := splitOn_eq '\n' s ▸ List.splitOn_ne_nil '\n' s
  obtain ⟨piece, pieces, hs⟩ := List.exists_cons_of_ne_nil hne
  rw [lines, lines, splitOn_cut h, hs]
  rfl

theorem lines_of_not_mem {line : List Char} (hne : line ≠ []) (h : '\n' ∉ line) :
    lines line = [line] := by
  rw [lines, splitOn_of_not_mem h]
  simp [linesFrom, hne]

theorem HasLines.eq_lines {s : List Char} {ls : List (List Char)} (h : HasLines s ls) :
    ls = lines s := by
  induction h with
  | nil => rfl
  | last hne hn => rw [lines_of_not_mem hne hn]
  | feed hn hr _ ih => rw [lines_cut hn, dropReturn_eq_self hr, ih]
  | @returnFeed line s ls hn _ ih =>
    have hcut : line ++ '\r' :: '\n' :: s = (line ++ ['\r']) ++ '\n' :: s := by simp
    rw [hcut, lines_cut (by simpa using hn), dropReturn_concat, ih]

theorem hasLines_lines (s : List Char) : HasLines s (lines s) := by
  by_cases hs : '\n' ∈ s
  · obtain ⟨line, rest, hcut, hn⟩ := List.eq_append_cons_of_mem hs
    have hshort : rest.length < s.length := by
      rw [hcut, List.length_append, List.length_cons]
      omega
    have ih := hasLines_lines rest
    rw [hcut, lines_cut hn]
    by_cases hr : line.getLast? = some '\r'
    · obtain ⟨line, rfl⟩ := List.getLast?_eq_some_iff.1 hr
      rw [dropReturn_concat, List.append_assoc]
      exact .returnFeed (fun h => hn (List.mem_append_left _ h)) ih
    · rw [dropReturn_eq_self hr]
      exact .feed hn hr ih
  · rcases s with _ | ⟨c, s⟩
    · exact .nil
    · rw [lines_of_not_mem (List.cons_ne_nil c s) hs]
      exact .last (List.cons_ne_nil c s) hs
termination_by s.length

/-- A text that ends with a line feed, or is empty, leaves the lines after it as they are. -/
theorem HasLines.append {a b : List Char} {la lb : List (List Char)} (ha : HasLines a la)
    (hb : HasLines b lb) (hend : ∀ c ∈ a.getLast?, c = '\n') : HasLines (a ++ b) (la ++ lb) := by
  have hrest : ∀ line s : List Char, (∀ c ∈ (line ++ '\n' :: s).getLast?, c = '\n') →
      ∀ c ∈ s.getLast?, c = '\n' := by
    intro line s h c hc
    apply h c
    simp [List.getLast?_append, List.getLast?_cons, Option.mem_def.1 hc]
  induction ha with
  | nil => exact hb
  | @last line hne hn =>
    have hmem : line.getLast hne ∈ line := List.getLast_mem hne
    rw [hend _ (List.getLast?_eq_some_getLast hne)] at hmem
    exact absurd hmem hn
  | @feed line s ls hn hr _ ih =>
    rw [List.append_assoc, List.cons_append]
    exact .feed hn hr (ih (hrest line s hend))
  | @returnFeed line s ls hn _ ih =>
    rw [List.append_assoc, List.cons_append, List.cons_append]
    refine .returnFeed hn (ih (hrest (line ++ ['\r']) s ?_))
    simpa using hend

end Text

/-! ## Columns -/

namespace ReflectionKind

/-- The target that a line names for a kind: what stands between the token of the kind with its
semicolon and the next semicolon. -/
def target? (k : ReflectionKind) (line : List Char) : Option String :=
  (Text.dropLead? (k.token.toList ++ [';']) line).map fun rest =>
    String.ofList (rest.takeWhile (· ≠ ';'))

/-- The target of an entry, if the entry is of the kind. -/
def select (k : ReflectionKind) (entry : ReflectionKind × String) : Option String :=
  if entry.1 = k then some entry.2 else none

theorem ofToken?_eq_some {s : String} {k : ReflectionKind} :
    ofToken? s = some k ↔ s = k.token := by
  constructor
  · intro h
    have hk := List.find?_some h
    exact (of_decide_eq_true hk).symm
  · rintro rfl
    cases k <;> decide +kernel

theorem token_inj {k k' : ReflectionKind} : k.token = k'.token ↔ k = k' := by
  refine ⟨fun h => ?_, fun h => h ▸ rfl⟩
  have hk : ofToken? k.token = some k := ofToken?_eq_some.2 rfl
  exact Option.some.inj (hk.symm.trans (ofToken?_eq_some.2 h))

theorem semicolon_not_mem_token (k : ReflectionKind) : ';' ∉ k.token.toList := by
  cases k <;> decide +kernel

theorem target?_of_not_mem {k : ReflectionKind} {line : List Char} (h : ';' ∉ line) :
    k.target? line = none := by
  rw [target?, Option.map_eq_none_iff, Text.dropLead?_eq_none]
  rintro ⟨rest, rfl⟩
  simp at h

theorem target?_cut (k : ReflectionKind) {first : List Char} (h : ';' ∉ first) (rest : List Char) :
    k.target? (first ++ ';' :: rest) =
      if String.ofList first = k.token then some (String.ofList (rest.takeWhile (· ≠ ';')))
      else none := by
  split
  · next hf =>
    have hlead : first ++ ';' :: rest = (k.token.toList ++ [';']) ++ rest := by
      simp [← hf]
    rw [target?, Text.dropLead?_eq_some.2 hlead, Option.map_some]
  · next hf =>
    rw [target?, Option.map_eq_none_iff, Text.dropLead?_eq_none]
    rintro ⟨rest', hlead⟩
    -- the text before the first semicolon is the same on both sides
    have hcut := congrArg (Text.splitOn ';') hlead
    rw [List.append_assoc, List.singleton_append, Text.splitOn_cut k.semicolon_not_mem_token,
      Text.splitOn_cut h] at hcut
    rw [← (List.cons.inj hcut).1, String.ofList_toList] at hf
    exact hf rfl

end ReflectionKind

namespace ReflectionLog

open ReflectionKind

/-- The line has something in it, but no second column. -/
def IsMalformed (line : List Char) : Prop :=
  line ≠ [] ∧ ';' ∉ line

instance : DecidablePred IsMalformed :=
  fun line => inferInstanceAs (Decidable (line ≠ [] ∧ ';' ∉ line))

/-- What a line adds to the log. -/
def recorded (line : List Char) : List (ReflectionKind × String) :=
  (readLine? line).getD []

theorem readLine?_of_not_mem {line : List Char} (h : ';' ∉ line) : readLine? line = none := by
  rw [readLine?, Text.splitOn_of_not_mem h]

theorem readLine?_cut {first : List Char} (h : ';' ∉ first) (rest : List Char) :
    readLine? (first ++ ';' :: rest) =
      some ((ofToken? (String.ofList first)).toList.map
        fun k => (k, String.ofList (rest.takeWhile (· ≠ ';')))) := by
  obtain ⟨pieces, hp⟩ := List.head?_eq_some_iff.1 (Text.head?_splitOn ';' rest)
  rw [readLine?, Text.splitOn_cut h, hp]
  rcases hk : ofToken? (String.ofList first) with _ | k <;> simp [hk]

theorem filterMap_recorded (k : ReflectionKind) (line : List Char) :
    (recorded line).filterMap k.select = (k.target? line).toList := by
  by_cases h : ';' ∈ line
  · obtain ⟨first, rest, rfl, hn⟩ := List.eq_append_cons_of_mem h
    rw [recorded, readLine?_cut hn, Option.getD_some, target?_cut k hn]
    rcases hk : ofToken? (String.ofList first) with _ | k'
    · have hne : String.ofList first ≠ k.token := by
        intro hf
        rw [ofToken?_eq_some.2 hf] at hk
        cases hk
      simp [hne]
    · have hf : String.ofList first = k'.token := ofToken?_eq_some.1 hk
      by_cases hkk : k' = k <;> simp [hf, token_inj, select, hkk]
  · rw [recorded, readLine?_of_not_mem h, target?_of_not_mem h]
    rfl

/-! ## The whole text -/

theorem isMalformed_cons {c : Char} {line : List Char} :
    IsMalformed (c :: line) ↔ readLine? (c :: line) = none := by
  constructor
  · intro h
    exact readLine?_of_not_mem h.2
  · intro h
    refine ⟨List.cons_ne_nil c line, fun hmem => ?_⟩
    obtain ⟨first, rest, hcut, hn⟩ := List.eq_append_cons_of_mem hmem
    rw [hcut, readLine?_cut hn] at h
    cases h

section

variable (origin : String)

theorem readLines_nil_cons (n : Nat) (ls : List (List Char)) :
    readLines origin n ([] :: ls) = readLines origin (n + 1) ls := by
  simp [readLines]

theorem readLines_of_malformed {line : List Char} (h : IsMalformed line) (n : Nat)
    (ls : List (List Char)) :
    readLines origin n (line :: ls) = .error ⟨origin, n, String.ofList line⟩ := by
  rw [readLines, if_neg (by simpa using h.1), readLine?_of_not_mem h.2]

theorem readLines_cons {line : List Char} (h : ¬IsMalformed line) (n : Nat)
    (ls : List (List Char)) :
    readLines origin n (line :: ls) =
      (readLines origin (n + 1) ls).map (recorded line ++ ·) := by
  rcases line with _ | ⟨c, line⟩
  · rw [readLines_nil_cons]
    cases readLines origin (n + 1) ls <;> rfl
  · rcases hr : readLine? (c :: line) with _ | entries
    · exact absurd (isMalformed_cons.2 hr) h
    · rw [readLines, if_neg (by simp), recorded, hr]
      rfl

theorem readLines_append {before : List (List Char)} (h : ∀ line ∈ before, ¬IsMalformed line)
    (n : Nat) (ls : List (List Char)) :
    readLines origin n (before ++ ls) =
      (readLines origin (n + before.length) ls).map (before.flatMap recorded ++ ·) := by
  induction before generalizing n with
  | nil =>
    rw [List.nil_append, List.length_nil, Nat.add_zero]
    cases readLines origin n ls <;> rfl
  | cons line before ih =>
    have hbefore : ∀ l ∈ before, ¬IsMalformed l := fun l hl => h l (List.mem_cons_of_mem _ hl)
    rw [List.cons_append, readLines_cons origin (h line List.mem_cons_self), ih hbefore,
      List.length_cons, Nat.add_comm before.length 1, ← Nat.add_assoc]
    cases readLines origin (n + 1 + before.length) ls with
    | error e => rfl
    | ok entries => simp [Except.map]

end

theorem targets_eq_filterMap (log : ReflectionLog) (k : ReflectionKind) :
    log.targets k = log.entries.filterMap k.select := by
  rw [targets, ← List.filterMap_eq_map, ← List.filterMap_eq_filter, List.filterMap_filterMap]
  refine List.filterMap_congr fun entry _ => ?_
  by_cases h : entry.1 = k <;> simp [select, h, Option.guard]

theorem targets_recorded (ls : List (List Char)) (k : ReflectionKind) :
    targets ⟨addAllNew [] (ls.flatMap recorded)⟩ k = (ls.filterMap k.target?).eraseDups := by
  have hselect : ∀ e e' t, k.select e = some t → k.select e' = some t → e = e' := by
    rintro ⟨k₁, t₁⟩ ⟨k₂, t₂⟩ t h₁ h₂
    simp only [select, Option.ite_none_right_eq_some, Option.some.injEq] at h₁ h₂
    obtain ⟨rfl, rfl⟩ := h₁
    obtain ⟨rfl, rfl⟩ := h₂
    rfl
  have hentries : ∀ entries, targets ⟨addAllNew [] entries⟩ k =
      (entries.filterMap k.select).eraseDups := by
    intro entries
    rw [eraseDups_filterMap fun e _ e' _ => hselect e e', ← addAllNew_nil, targets_eq_filterMap]
  rw [hentries, List.filterMap_flatMap, List.filterMap_eq_flatMap_toList]
  simp only [filterMap_recorded]

/-- What lines tell: the targets of each kind, or which line is the first malformed one. -/
inductive Tells (origin : String) (ls : List (List Char)) :
    Except MalformedLine ReflectionLog → Prop
  | malformed {before after : List (List Char)} {line : List Char} :
    ls = before ++ line :: after → (∀ l ∈ before, ¬IsMalformed l) → IsMalformed line →
    Tells origin ls (.error ⟨origin, before.length + 1, String.ofList line⟩)
  | log {log : ReflectionLog} : (∀ line ∈ ls, ¬IsMalformed line) →
    (∀ k, log.targets k = (ls.filterMap k.target?).eraseDups) → Tells origin ls (.ok log)

section

variable (origin : String) {text : String}

theorem parse_of_malformed {before after : List (List Char)} {line : List Char}
    (hls : Text.HasLines text.toList (before ++ line :: after))
    (hb : ∀ l ∈ before, ¬IsMalformed l) (hl : IsMalformed line) :
    parse origin text = .error ⟨origin, before.length + 1, String.ofList line⟩ := by
  rw [parse, ← hls.eq_lines, readLines_append origin hb, readLines_of_malformed origin hl,
    Nat.add_comm]
  rfl

theorem parse_of_wellFormed {ls : List (List Char)} (hls : Text.HasLines text.toList ls)
    (h : ∀ line ∈ ls, ¬IsMalformed line) :
    parse origin text = .ok ⟨addAllNew [] (ls.flatMap recorded)⟩ := by
  have hread := readLines_append origin h 1 []
  rw [List.append_nil] at hread
  rw [parse, ← hls.eq_lines, hread]
  simp [readLines, Except.map]

theorem tells_parse {ls : List (List Char)} (hls : Text.HasLines text.toList ls) :
    Tells origin ls (parse origin text) := by
  rcases hf : ls.find? fun line => IsMalformed line with _ | line
  · have h : ∀ line ∈ ls, ¬IsMalformed line := by simpa using List.find?_eq_none.1 hf
    rw [parse_of_wellFormed origin hls h]
    exact .log h (targets_recorded ls)
  · obtain ⟨hl, before, after, rfl, hb⟩ := List.find?_eq_some_iff_append.1 hf
    have hb : ∀ l ∈ before, ¬IsMalformed l := by simpa using hb
    have hl : IsMalformed line := of_decide_eq_true hl
    rw [parse_of_malformed origin hls hb hl]
    exact .malformed rfl hb hl

end

namespace Tells

variable {origin : String} {ls : List (List Char)}

theorem exists_error_iff {result : Except MalformedLine ReflectionLog}
    (h : Tells origin ls result) :
    (∃ e, result = .error e) ↔ ∃ line ∈ ls, IsMalformed line := by
  cases h with
  | malformed hls _ hl => exact ⟨fun _ => ⟨_, by simp [hls], hl⟩, fun _ => ⟨_, rfl⟩⟩
  | log hls _ =>
    constructor
    · rintro ⟨e, he⟩
      cases he
    · rintro ⟨line, hmem, hl⟩
      exact absurd hl (hls line hmem)

theorem of_ok {log : ReflectionLog} (h : Tells origin ls (.ok log)) :
    (∀ line ∈ ls, ¬IsMalformed line) ∧
      ∀ k, log.targets k = (ls.filterMap k.target?).eraseDups := by
  cases h with
  | log hls hlog => exact ⟨hls, hlog⟩

end Tells

theorem eraseDups_append_filter (xs ys : List String) :
    (xs ++ ys).eraseDups = xs.eraseDups ++ ys.eraseDups.filter (· ∉ xs.eraseDups) := by
  have hfilter : ys.removeAll xs = ys.filterMap (Option.guard (· ∉ xs)) := by
    rw [List.filterMap_eq_filter, List.removeAll]
    simp
  rw [List.eraseDups_append, hfilter, eraseDups_filterMap, List.filterMap_eq_filter]
  · simp
  · intro x _ y _ z hx hy
    simp only [Option.guard_eq_some_iff] at hx hy
    exact hx.1.trans hy.1.symm

section

variable {origin a b : String} {first : ReflectionLog}

theorem hasLines_append (hend : a.toList.getLast? = some '\n') :
    Text.HasLines (a ++ b).toList (Text.lines a.toList ++ Text.lines b.toList) := by
  rw [String.toList_append]
  exact (Text.hasLines_lines _).append (Text.hasLines_lines _)
    fun c hc => Option.some.inj (hc.symm.trans hend)

theorem parse_append_of_ok {second : ReflectionLog} (hend : a.toList.getLast? = some '\n')
    (ha : parse origin a = .ok first) (hb : parse origin b = .ok second) :
    ∃ log, parse origin (a ++ b) = .ok log ∧
      ∀ k, log.targets k =
        first.targets k ++ (second.targets k).filter (· ∉ first.targets k) := by
  obtain ⟨hwa, hfirst⟩ := (ha ▸ tells_parse origin (Text.hasLines_lines a.toList)).of_ok
  obtain ⟨hwb, hsecond⟩ := (hb ▸ tells_parse origin (Text.hasLines_lines b.toList)).of_ok
  refine ⟨_, parse_of_wellFormed origin (hasLines_append hend)
    (List.forall_mem_append.2 ⟨hwa, hwb⟩), fun k => ?_⟩
  rw [targets_recorded, hfirst, hsecond, List.filterMap_append, eraseDups_append_filter]

theorem parse_append_of_error {e : MalformedLine} (hend : a.toList.getLast? = some '\n')
    (ha : parse origin a = .ok first) (hb : parse origin b = .error e) :
    parse origin (a ++ b) =
      .error { e with line := e.line + (Text.lines a.toList).length } := by
  obtain ⟨hwa, -⟩ := (ha ▸ tells_parse origin (Text.hasLines_lines a.toList)).of_ok
  have htells : Tells origin (Text.lines b.toList) (.error e) :=
    hb ▸ tells_parse origin (Text.hasLines_lines b.toList)
  generalize hlb : Text.lines b.toList = lb at htells
  cases htells with
  | @malformed before after line hls hbefore hl =>
    have hlab := hasLines_append (b := b) hend
    rw [hlb, hls, ← List.append_assoc] at hlab
    rw [parse_of_malformed origin hlab (List.forall_mem_append.2 ⟨hwa, hbefore⟩) hl,
      List.length_append, Nat.add_comm _ before.length, Nat.add_right_comm]

end

/-- A log is read line by line: it gives what its lines name, each target once, or it is refused for
its first malformed line. What is read of two logs put together is what is read of the first with
what the second one adds, and a malformed line of the second is counted from the start of both. -/
theorem parse_tells (origin : String) :
    (∀ text, ∃ ls, Text.HasLines text.toList ls ∧ Tells origin ls (parse origin text) ∧
      ((∃ e, parse origin text = .error e) ↔ ∃ line ∈ ls, IsMalformed line)) ∧
    ∀ (a b : String) (first : ReflectionLog), a.toList.getLast? = some '\n' →
      parse origin a = .ok first →
      (∀ second, parse origin b = .ok second → ∃ log, parse origin (a ++ b) = .ok log ∧
        ∀ k, log.targets k =
          first.targets k ++ (second.targets k).filter (· ∉ first.targets k)) ∧
      ∀ e, parse origin b = .error e → ∃ ls, Text.HasLines a.toList ls ∧
        parse origin (a ++ b) = .error { e with line := e.line + ls.length } := by
  refine ⟨fun text => ?_, fun a b first hend ha => ⟨fun second hb => ?_, fun e hb => ?_⟩⟩
  · have htells := tells_parse origin (Text.hasLines_lines text.toList)
    exact ⟨_, Text.hasLines_lines text.toList, htells, htells.exists_error_iff⟩
  · exact parse_append_of_ok hend ha hb
  · exact ⟨_, Text.hasLines_lines a.toList, parse_append_of_error hend ha hb⟩

/-- A log whose second line is blank. -/
def blankEnded : String := "Class.forName;A;12\r\n\n"

/-- A log that names one more class, and then the class of `blankEnded` again. -/
def repeating : String := "Class.forName;B\nClass.forName;A"

/-- A log whose third line has no second column. -/
def faulty : String := "Field.get;f\n\nnothing"

/-- The third line of one text is the fifth of both. -/
theorem parse_tells_blankEnded :
    blankEnded.toList.getLast? = some '\n' ∧
      parse "log" blankEnded = .ok ⟨[(.classForName, "A")]⟩ ∧
      parse "log" repeating = .ok ⟨[(.classForName, "B"), (.classForName, "A")]⟩ ∧
      parse "log" faulty = .error ⟨"log", 3, "nothing"⟩ ∧
      (∃ log, parse "log" (blankEnded ++ repeating) = .ok log ∧
        log.targets .classForName = ["A", "B"]) ∧
      parse "log" (blankEnded ++ faulty) = .error ⟨"log", 5, "nothing"⟩ := by
  have hend : blankEnded.toList.getLast? = some '\n' := by decide +kernel
  have ha : parse "log" blankEnded = .ok ⟨[(.classForName, "A")]⟩ := by decide +kernel
  have hb : parse "log" repeating = .ok ⟨[(.classForName, "B"), (.classForName, "A")]⟩ := by
    decide +kernel
  have he : parse "log" faulty = .error ⟨"log", 3, "nothing"⟩ := by decide +kernel
  obtain ⟨log, hlog, htargets⟩ := ((parse_tells "log").2 _ repeating _ hend ha).1 _ hb
  obtain ⟨ls, hls, herror⟩ := ((parse_tells "log").2 _ faulty _ hend ha).2 _ he
  have hlength : ls.length = 2 := by
    rw [hls.eq_lines]
    decide +kernel
  rw [hlength] at herror
  refine ⟨hend, ha, hb, he, ⟨log, hlog, ?_⟩, herror⟩
  rw [htargets]
  decide +kernel

end ReflectionLog

end Standin
