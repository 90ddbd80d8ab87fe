import Standin.Body.Codec
import Standin.Proofs.NumberWriting

/-!
# What a decoder makes of its own output

A value that was read is written and read again. Only a floating-point constant can come back
changed or be refused, so the outcome depends on the constants that the value holds (`ReadsBack`).
The lemmas below follow the combinators that decoders are put together from (`Decoder.Rereads`);
each tells how much room is needed for what is written in full where it had been left out.
-/

namespace Standin

/-- Whether the constant is a floating-point number. -/
def Constant.isFloating : Constant → Bool
  | float _ | double _ => true
  | _ => false

/-- The outcome `o` of reading the written form of `x`, a value that holds the constants `cs`. -/
structure ReadsBack {α : Type} (cs : List Constant) (x : α) (o : Option α) : Prop where
  isSome_iff : o.isSome ↔ ∀ v, .float v ∈ cs → v.IsFinite
  eq_some : (∀ c ∈ cs, c.isFloating = false) → o = some x

namespace ReadsBack

variable {α β : Type} {cs cs' : List Constant} {x : α} {o : Option α}

theorem of_eq_some (h : o = some x) (hcs : ∀ v, .float v ∉ cs) : ReadsBack cs x o where
  isSome_iff := by
    rw [h]
    exact iff_of_true rfl fun v hv => absurd hv (hcs v)
  eq_some _ := h

theorem pure (x : α) : ReadsBack [] x (some x) :=
  of_eq_some rfl (by simp)

theorem eq (h : ReadsBack [] x o) : o = some x :=
  h.eq_some (by simp)

theorem congr (h : ReadsBack cs x o) (hcs : ∀ c, c ∈ cs' ↔ c ∈ cs) : ReadsBack cs' x o where
  isSome_iff := by simp only [hcs, h.isSome_iff]
  eq_some h' := h.eq_some fun c hc => h' c ((hcs c).2 hc)

theorem bind {y : α → β} {g : α → Option β} (h : ReadsBack cs x o)
    (hg : ∀ x, ReadsBack cs' (y x) (g x)) : ReadsBack (cs ++ cs') (y x) (o >>= g) where
  isSome_iff := by
    have hsome : (o >>= g).isSome ↔ o.isSome ∧ ∀ v, .float v ∈ cs' → v.IsFinite := by
      cases o with
      | none => simp
      | some x => simpa using (hg x).isSome_iff
    rw [hsome, h.isSome_iff]
    simp only [List.mem_append, or_imp, forall_and]
  eq_some hcs := by
    rw [h.eq_some fun c hc => hcs c (List.mem_append_left _ hc)]
    exact (hg x).eq_some fun c hc => hcs c (List.mem_append_right _ hc)

theorem map (f : α → β) (h : ReadsBack cs x o) : ReadsBack cs (f x) (o.map f) where
  isSome_iff := by rw [Option.isSome_map, h.isSome_iff]
  eq_some hcs := by rw [h.eq_some hcs, Option.map_some]

theorem mapM {d : Json → Option α} {w : α → Json} {cs : α → List Constant} {xs : List α}
    (h : ∀ x ∈ xs, ReadsBack (cs x) x (d (w x))) :
    ReadsBack (xs.flatMap cs) xs ((xs.map w).mapM d) := by
  induction xs with
  | nil => exact pure []
  | cons x xs ih =>
    have hx := h x List.mem_cons_self
    have hxs := ih fun x hx => h x (List.mem_cons_of_mem _ hx)
    rw [List.map_cons, List.mapM_cons, List.flatMap_cons]
    refine hx.bind (y := fun x => x :: xs) fun x' => ?_
    simpa using hxs.bind fun xs => pure (x' :: xs)

end ReadsBack

theorem exists_of_mem_mapM {α : Type} {d : Json → Option α} {js : List Json} {xs : List α} {x : α}
    (h : js.mapM d = some xs) (hx : x ∈ xs) : ∃ j, d j = some x := by
  induction js generalizing xs with
  | nil =>
    obtain rfl := Option.some.inj h
    cases hx
  | cons j js ih =>
    simp only [List.mapM_cons, Option.bind_eq_bind, Option.bind_eq_some_iff, Option.pure_def,
      Option.some.injEq] at h
    obtain ⟨y, hy, ys, hys, rfl⟩ := h
    rcases List.mem_cons.1 hx with rfl | hx
    · exact ⟨j, hy⟩
    · exact ih hys hx

/-! ## Fields of written records -/

namespace Json

variable {ms ms' : List (String × Json)} {names : List String}

theorem fields?_object (h : (ms.map Prod.fst).Nodup) (names : List String) :
    (Json.object ms).fields? names = some (names.map fun n => ms.lookup n) := by
  have hcount : ∀ n, ms.countP (fun m => m.1 = n) ≤ 1 := by
    intro n
    have hn := List.nodup_iff_count_le_one.1 h n
    rw [List.count, List.countP_map] at hn
    simpa [Function.comp_def, beq_eq_decide] using hn
  rw [fields?, if_pos (by simp [hcount])]

theorem lookup_of_mem (h : (ms.map Prod.fst).Nodup) {m : String × Json} (hm : m ∈ ms) :
    ms.lookup m.1 = some m.2 := by
  induction ms with
  | nil => cases hm
  | cons m' ms ih =>
    obtain ⟨n', v'⟩ := m'
    obtain ⟨hn', h⟩ := List.nodup_cons.1 h
    rcases List.mem_cons.1 hm with rfl | hm
    · exact List.lookup_cons_self
    · have hne : m.1 ≠ n' := fun heq => hn' (List.mem_map.2 ⟨m, hm, heq⟩)
      rw [List.lookup_cons, beq_eq_false_iff_ne.2 hne]
      exact ih h hm

/-- A record with all its fields. -/
theorem fields?_eq (hnames : ms.map Prod.fst = names) (h : names.Nodup) :
    (Json.object ms).fields? names = some (ms.map fun m => some m.2) := by
  subst hnames
  rw [fields?_object h, List.map_map]
  exact congrArg some (List.map_congr_left fun m hm => lookup_of_mem h hm)

/-- A record with a field that may be left out. -/
theorem fields?_omitted {α : Type} {o : Option α} {n : String} {w : α → Json}
    (hnames : ms.map Prod.fst ++ n :: ms'.map Prod.fst = names) (h : names.Nodup) :
    (Json.object (ms ++ o.toList.map (fun x => (n, w x)) ++ ms')).fields? names =
      some (ms.map (fun m => some m.2) ++ o.map w :: ms'.map fun m => some m.2) := by
  cases o with
  | some x =>
    have hms : (ms ++ [(n, w x)] ++ ms').map Prod.fst = names := by simpa using hnames
    simpa using fields?_eq hms h
  | none =>
    subst hnames
    have hsub : ((ms ++ ms').map Prod.fst).Nodup := by
      rw [List.map_append]
      exact h.sublist ((List.sublist_cons_self _ _).append_left _)
    have hnone : (ms ++ ms').lookup n = none := by
      have hn : n ∉ (ms ++ ms').map Prod.fst := by
        rw [List.map_append]
        exact (List.nodup_middle.1 h).notMem
      rw [List.lookup_eq_none_iff]
      intro m hm
      rw [bne_iff_ne]
      rintro rfl
      exact hn (List.mem_map_of_mem hm)
    have hms : ∀ l, l ⊆ ms ++ ms' →
        (l.map Prod.fst).map (fun n => (ms ++ ms').lookup n) = l.map fun m => some m.2 := by
      intro l hl
      rw [List.map_map]
      exact List.map_congr_left fun m hm => lookup_of_mem hsub (hl hm)
    rw [Option.toList_none, List.map_nil, List.append_nil, fields?_object hsub, List.map_append,
      List.map_cons, hnone, hms ms (List.subset_append_left _ _),
      hms ms' (List.subset_append_right _ _), Option.map_none]

theorem fields?_omitted_last {α : Type} {o : Option α} {n : String} {w : α → Json}
    (hnames : ms.map Prod.fst ++ [n] = names) (h : names.Nodup) :
    (Json.object (ms ++ o.toList.map fun x => (n, w x))).fields? names =
      some (ms.map (fun m => some m.2) ++ [o.map w]) := by
  have hnames : ms.map Prod.fst ++ n :: ([] : List (String × Json)).map Prod.fst = names := hnames
  simpa using fields?_omitted (o := o) (w := w) hnames h

end Json

namespace Decoder

variable {α β : Type}

/-- What was read with room for `k` more levels is written by `w` in a form that is read back, up to
the constants `cs` that it holds. -/
def Rereads (d : Decoder α) (w : α → Json) (cs : α → List Constant) (k : ℕ) : Prop :=
  ∀ ⦃room j x⦄, k ≤ room → d room j = some x → ReadsBack (cs x) x (d room (w x))

namespace Rereads

variable {d : Decoder α} {w : α → Json} {cs : α → List Constant} {k room : ℕ} {x : α}

theorem required (h : d.Rereads w cs k) (hk : k ≤ room) {a : Option Json}
    (ha : d.required room a = some x) : ReadsBack (cs x) x (d.required room (some (w x))) := by
  cases a with
  | none => cases ha
  | some j => exact h hk ha

/-- A field that had been left out is written, so its default must be read back too. -/
theorem withDefault (h : d.Rereads w cs k) (hk : k ≤ room) {x₀ : α}
    (h₀ : ReadsBack (cs x₀) x₀ (d room (w x₀))) {a : Option Json}
    (ha : d.withDefault x₀ room a = some x) :
    ReadsBack (cs x) x (d.withDefault x₀ room (some (w x))) := by
  cases a with
  | none => rwa [← Option.some.inj ha]
  | some j => exact h hk ha

/-- Some of the items of a list that was read. -/
theorem list_of_subset (h : d.Rereads w cs k) (hk : k + 1 ≤ room) {j : Json} {xs ys : List α}
    (hj : d.list room j = some xs) (hys : ys ⊆ xs) :
    ReadsBack (ys.flatMap cs) ys (d.list room (.array (ys.map w))) := by
  obtain ⟨room, rfl⟩ := Nat.exists_eq_add_of_le' (Nat.one_le_of_lt hk)
  cases j with
  | array items =>
    refine ReadsBack.mapM fun x hx => ?_
    obtain ⟨j, hj⟩ := exists_of_mem_mapM hj (hys hx)
    exact h (by omega) hj
  | _ => cases hj

theorem list (h : d.Rereads w cs k) :
    d.list.Rereads (fun xs => .array (xs.map w)) (fun xs => xs.flatMap cs) (k + 1) :=
  fun _ _ xs hk hj => h.list_of_subset hk hj (List.Subset.refl xs)

/-- A list that had been left out is written as an empty one. -/
theorem listField_of_subset (h : d.Rereads w cs k) (hk : k + 1 ≤ room) {a : Option Json}
    {xs ys : List α} (ha : d.list.withDefault [] room a = some xs) (hys : ys ⊆ xs) :
    ReadsBack (ys.flatMap cs) ys (d.list.withDefault [] room (some (.array (ys.map w)))) := by
  cases a with
  | none =>
    obtain rfl := Option.some.inj ha
    obtain rfl := List.subset_nil.1 hys
    obtain ⟨room, rfl⟩ := Nat.exists_eq_add_of_le' (Nat.one_le_of_lt hk)
    exact ReadsBack.pure []
  | some j => exact h.list_of_subset hk ha hys

theorem listField (h : d.Rereads w cs k) (hk : k + 1 ≤ room) {a : Option Json} {xs : List α}
    (ha : d.list.withDefault [] room a = some xs) :
    ReadsBack (xs.flatMap cs) xs (d.list.withDefault [] room (some (.array (xs.map w)))) :=
  h.listField_of_subset hk ha (List.Subset.refl xs)

theorem optional (h : d.Rereads w cs k) (hw : ∀ x, w x ≠ .null) :
    d.optional.Rereads (fun o => o.elim .null w) (fun o => o.elim [] cs) k := by
  intro room j o hroom hj
  have hvalue : ∀ x, d.optional room (w x) = (d room (w x)).map some := by
    intro x
    unfold Decoder.optional
    split
    · next hnull => exact absurd hnull (hw x)
    · rfl
  unfold Decoder.optional at hj
  split at hj
  · rw [← Option.some.inj hj]
    exact ReadsBack.pure none
  · obtain ⟨x, hx, rfl⟩ := Option.map_eq_some_iff.1 hj
    show ReadsBack (cs x) (some x) (d.optional room (w x))
    rw [hvalue]
    exact (h hroom hx).map some

/-- A field that is written only if it is there. -/
theorem optionalField (h : d.Rereads w cs k) (hw : ∀ x, w x ≠ .null) (hk : k ≤ room)
    {a : Option Json} {o : Option α} (ha : d.optional.withDefault none room a = some o) :
    ReadsBack (o.elim [] cs) o (d.optional.withDefault none room (o.map w)) := by
  cases o with
  | none => exact ReadsBack.pure none
  | some x =>
    cases a with
    | none => cases ha
    | some j => exact h.optional hw hk ha

/-- A record whose written form has the fields that it is put together from. -/
theorem record {names : List String} {build : ℕ → List (Option Json) → Option α}
    (h : ∀ {room fs x}, k ≤ room → build room fs = some x →
      ∃ fs', (w x).fields? names = some fs' ∧ ReadsBack (cs x) x (build room fs')) :
    (Decoder.record names build).Rereads w cs (k + 1) := by
  intro room j x hroom hj
  obtain ⟨room, rfl⟩ := Nat.exists_eq_add_of_le' (Nat.one_le_of_lt hroom)
  obtain ⟨fs, -, hfs⟩ := Option.bind_eq_some_iff.1 hj
  obtain ⟨fs', hfs', hback⟩ := h (by omega) hfs
  show ReadsBack (cs x) x (((w x).fields? names).bind (build room))
  rwa [hfs']

end Rereads

/-- What was read under a tag is written under the tag in a form that is read back. -/
def Arm (w : α → Json) (cs : α → List Constant) (k : ℕ) (tag : String) (d : Decoder α) : Prop :=
  ∀ ⦃room j x⦄, k ≤ room → d room j = some x →
    ∃ j', w x = .object [(tag, j')] ∧ ReadsBack (cs x) x (d room j')

namespace Arm

variable {w : α → Json} {cs : α → List Constant} {k : ℕ} {tag : String}

theorem map {d : Decoder β} {w₀ : β → Json} {cs₀ : β → List Constant} {k₀ : ℕ}
    (h : d.Rereads w₀ cs₀ k₀) (hk : k₀ ≤ k) {f : β → α}
    (hw : ∀ v, w (f v) = .object [(tag, w₀ v)]) (hcs : ∀ v, cs (f v) = cs₀ v) :
    Arm w cs k tag (d.map f) := by
  intro room j x hroom hj
  obtain ⟨v, hv, rfl⟩ := Option.map_eq_some_iff.1 hj
  refine ⟨w₀ v, hw v, ?_⟩
  rw [hcs]
  exact (h (hk.trans hroom) hv).map f

/-- What belongs to the tag holds no constants, and makes none that can be refused. -/
theorem plain {d : Decoder β} {w₀ : β → Json} {k₀ : ℕ} (h : d.Rereads w₀ (fun _ => []) k₀)
    (hk : k₀ ≤ k) {f : β → α} (hw : ∀ v, w (f v) = .object [(tag, w₀ v)])
    (hcs : ∀ v r, .float r ∉ cs (f v)) :
    Arm w cs k tag (d.map f) := by
  intro room j x hroom hj
  obtain ⟨v, hv, rfl⟩ := Option.map_eq_some_iff.1 hj
  exact ⟨w₀ v, hw v, .of_eq_some ((h (hk.trans hroom) hv).map f).eq (hcs v)⟩

theorem record {names : List String} {build : ℕ → List (Option Json) → Option α}
    (h : ∀ {room fs x}, k ≤ room → build room fs = some x →
      ∃ j fs', w x = .object [(tag, j)] ∧ j.fields? names = some fs' ∧
        ReadsBack (cs x) x (build room fs')) :
    Arm w cs (k + 1) tag (Decoder.record names build) := by
  intro room j x hroom hj
  obtain ⟨room, rfl⟩ := Nat.exists_eq_add_of_le' (Nat.one_le_of_lt hroom)
  obtain ⟨fs, -, hfs⟩ := Option.bind_eq_some_iff.1 hj
  obtain ⟨j', fs', hw, hfs', hback⟩ := h (by omega) hfs
  refine ⟨j', hw, ?_⟩
  show ReadsBack (cs x) x ((j'.fields? names).bind (build room))
  rwa [hfs']

end Arm

section Tags

variable {table : String → Option α} {payload : String → Option (Decoder α)} {room : ℕ} {j : Json}
  {x : α} {tag : String}

theorem exists_of_keyword (h : keyword table room j = some x) : ∃ tag, table tag = some x := by
  unfold keyword at h
  split at h
  · exact ⟨_, h⟩
  · exact ⟨_, h⟩
  · cases h

theorem keyword_object (h : table tag = none) : keyword table room (.object [(tag, j)]) = none := by
  unfold keyword
  split
  · next hj => cases hj
  · next hj =>
    cases hj
    exact h
  · rfl

theorem exists_of_tagged (h : tagged payload room j = some x) :
    ∃ room' tag d j', room = room' + 1 ∧ payload tag = some d ∧ d room' j' = some x := by
  unfold tagged at h
  split at h
  · next room tag j =>
    obtain ⟨d, hd, hx⟩ := Option.bind_eq_some_iff.1 h
    exact ⟨room, tag, d, j, rfl, hd, hx⟩
  · cases h

theorem tagged_object {d : Decoder α} (h : payload tag = some d) :
    tagged payload (room + 1) (.object [(tag, j)]) = d room j := by
  rw [tagged, h, Option.bind_some]

end Tags

namespace Rereads

variable {w : α → Json} {cs : α → List Constant} {k : ℕ} {payload : String → Option (Decoder α)}

theorem tagged (h : ∀ tag d, payload tag = some d → Arm w cs k tag d) :
    (Decoder.tagged payload).Rereads w cs (k + 1) := by
  intro room j x hroom hj
  obtain ⟨room, tag, d, j, rfl, hd, hx⟩ := exists_of_tagged hj
  obtain ⟨j', hw, hback⟩ := h tag d hd (by omega) hx
  rwa [hw, tagged_object hd]

/-- Tags without and with what belongs to them. -/
theorem keywordOrTagged {table : String → Option α}
    (htable : ∀ tag x, table tag = some x →
      (∃ word, w x = .string word ∧ table word = some x) ∧ ∀ v, .float v ∉ cs x)
    (h : ∀ tag d, payload tag = some d → table tag = none ∧ Arm w cs k tag d) :
    (Decoder.orElse (Decoder.keyword table) (Decoder.tagged payload)).Rereads w cs (k + 1) := by
  intro room j x hroom hj
  rcases Option.or_eq_some_iff.1 hj with hj | ⟨-, hj⟩
  · obtain ⟨tag, htag⟩ := exists_of_keyword hj
    obtain ⟨⟨word, hw, hword⟩, hfloat⟩ := htable tag x htag
    refine .of_eq_some ?_ hfloat
    show (keyword table room (w x)).or _ = some x
    rw [hw, keyword, hword, Option.some_or]
  · obtain ⟨room, tag, d, j, rfl, hd, hx⟩ := exists_of_tagged hj
    obtain ⟨htag, harm⟩ := h tag d hd
    obtain ⟨j', hw, hback⟩ := harm (by omega) hx
    show ReadsBack (cs x) x ((keyword table _ (w x)).or (Decoder.tagged payload _ (w x)))
    rwa [hw, keyword_object htag, tagged_object hd, Option.none_or]

end Rereads

end Decoder

end Standin
