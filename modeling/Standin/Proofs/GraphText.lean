import Standin.CallGraph.Gxl
import Standin.Proofs.Legible

/-!
# A call graph is told by its document

The document of a graph has one element for each node and one for each edge. The elements are told
apart by the escapes: no text inside an element holds an angle bracket or a quotation mark, so an
element ends where its writer ended it (`legible_nodeChars`, `legible_edgeChars`), and the document
tells the name of the graph, the signatures and the numbers at the ends of the edges
(`eq_of_gxl_eq`).
-/

namespace Standin

/-! ## Counting tags -/

namespace Text

/-- How often `w` stands in a text. -/
def occurrences (w : List Char) : List Char → Nat
  | [] => 0
  | c :: s => (if w <+: c :: s then 1 else 0) + occurrences w s

variable {w : List Char}

theorem occurrences_tag (s : List Char) : occurrences ('<' :: w) ('<' :: s) =
    (if w <+: s then 1 else 0) + occurrences ('<' :: w) s := by
  simp [occurrences]

theorem occurrences_cons {c : Char} (hc : c ≠ '<') (s : List Char) :
    occurrences ('<' :: w) (c :: s) = occurrences ('<' :: w) s := by
  simp [occurrences, hc.symm]

theorem occurrences_append {a : List Char} (ha : '<' ∉ a) (s : List Char) :
    occurrences ('<' :: w) (a ++ s) = occurrences ('<' :: w) s := by
  induction a with
  | nil => rfl
  | cons c a ih =>
    obtain ⟨hc, ha⟩ := List.ne_and_not_mem_of_not_mem_cons ha
    rw [List.cons_append, occurrences_cons hc.symm, ih ha]

theorem occurrences_flatMap {α : Type} {f : α → List Char} {k : Nat}
    (h : ∀ a s, occurrences w (f a ++ s) = k + occurrences w s) (as : List α) (s : List Char) :
    occurrences w (as.flatMap f ++ s) = k * as.length + occurrences w s := by
  induction as with
  | nil => simp
  | cons a as ih =>
    rw [List.flatMap_cons, List.append_assoc, h, ih, List.length_cons, Nat.mul_succ]
    omega

end Text

namespace CallGraph

open Text

/-! ## Escapes -/

theorem escapedChar_ne_nil (c : Char) : escapedChar c ≠ [] := by
  unfold escapedChar
  split_ifs <;> simp

theorem not_mem_escapedChar {d : Char} (hd : d = '<' ∨ d = '"') (c : Char) :
    d ∉ escapedChar c := by
  unfold escapedChar
  rcases hd with rfl | rfl <;> split_ifs <;> simp_all [eq_comm]

/-- The names of the entities, with the characters that they stand for. -/
def entities : List (List Char × Char) :=
  [(['l', 't'], '<'), (['g', 't'], '>'), (['a', 'm', 'p'], '&'), (['a', 'p', 'o', 's'], '\x27'),
    (['q', 'u', 'o', 't'], '"')]

theorem entities_unique {w : List Char} {c d : Char} (hc : (w, c) ∈ entities)
    (hd : (w, d) ∈ entities) : d = c ∧ ';' ∉ w := by
  simp only [entities, List.mem_cons, Prod.mk.injEq, List.not_mem_nil, or_false] at hc hd
  rcases hc with ⟨rfl, rfl⟩ | ⟨rfl, rfl⟩ | ⟨rfl, rfl⟩ | ⟨rfl, rfl⟩ | ⟨rfl, rfl⟩ <;>
    exact ⟨by simpa using hd, by simp⟩

theorem escapedChar_cases (c : Char) :
    (escapedChar c = [c] ∧ c ≠ '&') ∨
      ∃ w, escapedChar c = '&' :: (w ++ [';']) ∧ (w, c) ∈ entities := by
  unfold escapedChar
  split_ifs with hlt hgt hamp hapos hquot
  · exact .inr ⟨['l', 't'], by simp, by simp [entities, hlt]⟩
  · exact .inr ⟨['g', 't'], by simp, by simp [entities, hgt]⟩
  · exact .inr ⟨['a', 'm', 'p'], by simp, by simp [entities, hamp]⟩
  · exact .inr ⟨['a', 'p', 'o', 's'], by simp, by simp [entities, hapos]⟩
  · exact .inr ⟨['q', 'u', 'o', 't'], by simp, by simp [entities, hquot]⟩
  · exact .inl ⟨rfl, hamp⟩

theorem legible_escapedChar : Legible (fun _ => True) (fun _ => True) escapedChar := by
  intro c d _ _ r s _ _ h
  rcases escapedChar_cases c with ⟨hc, hc'⟩ | ⟨w, hc, hw⟩ <;>
    rcases escapedChar_cases d with ⟨hd, hd'⟩ | ⟨v, hd, hv⟩ <;> rw [hc, hd] at h
  · simpa using h
  · exact absurd (List.cons.inj h).1 hc'
  · exact absurd (List.cons.inj h).1.symm hd'
  · obtain ⟨rfl, hrest⟩ := cut_unique (entities_unique hw hw).2 (entities_unique hv hv).2
      (by simpa using h)
    exact ⟨(entities_unique hv hw).1, hrest⟩

theorem not_mem_escaped {d : Char} (hd : d = '<' ∨ d = '"') (s : String) :
    d ∉ (escaped s).toList := by
  rw [escaped, String.toList_ofList, List.mem_flatMap]
  rintro ⟨c, -, hc⟩
  exact not_mem_escapedChar hd c hc

theorem escaped_unique {d : Char} (hd : d = '<' ∨ d = '"') {a b : String} {r s : List Char}
    (h : (escaped a).toList ++ d :: r = (escaped b).toList ++ d :: s) : a = b ∧ r = s := by
  have hmark : ∀ c, True → ∀ t, ¬escapedChar c <+: d :: t := by
    intro c _ t hpre
    obtain ⟨e, es, he⟩ := List.exists_cons_of_ne_nil (escapedChar_ne_nil c)
    rw [he, List.cons_prefix_cons] at hpre
    exact not_mem_escapedChar hd c (by rw [he, hpre.1]; exact List.mem_cons_self)
  rw [escaped, escaped, String.toList_ofList, String.toList_ofList] at h
  obtain ⟨hab, hrest⟩ := legible_escapedChar.flatMap (fun _ _ _ => trivial) (fun _ _ => trivial)
    (fun _ _ => trivial) trivial trivial (fun c hc => hmark c hc r) (fun c hc => hmark c hc s) h
  exact ⟨String.toList_inj.1 hab, (List.cons.inj hrest).2⟩

/-! ## Elements -/

/-- The element of a node with that signature and number. -/
def nodeChars (p : String × Nat) : List Char :=
  "    <node id=\"n".toList ++ (Nat.toDigits 10 p.2 ++
    ("\">\n      <attr name=\"signature\">\n        <string>".toList ++ ((escaped p.1).toList ++
      '<' :: "/string>\n      </attr>\n    </node>\n".toList)))

/-- The element of an edge with those ends and that number. -/
def edgeChars (p : (Nat × Nat) × Nat) : List Char :=
  "    <edge id=\"e".toList ++ (Nat.toDigits 10 p.2 ++ ("\" from=\"n".toList ++
    (Nat.toDigits 10 p.1.1 ++ ("\" to=\"n".toList ++ (Nat.toDigits 10 p.1.2 ++
      "\"/>\n".toList)))))

/-- What comes before the elements of a graph with that name. -/
def opening (id : String) : List Char :=
  "<?xml version=\"1.0\" encoding=\"UTF-8\"?>\n<gxl>\n  <graph id=\"".toList ++
    ((escaped id).toList ++ '"' :: " edgeids=\"true\" edgemode=\"directed\">\n".toList)

/-- What comes after the elements. -/
def closing : List Char :=
  "  </graph>\n</gxl>".toList

theorem toList_nodeElement (m : MethodRef) (i : Nat) :
    (nodeElement m i).toList = nodeChars (m.text, i) := by
  unfold nodeElement nodeChars
  simp

theorem toList_edgeElement (s t i : Nat) :
    (edgeElement s t i).toList = edgeChars ((s, t), i) := by
  unfold edgeElement edgeChars
  simp

/-- The positions of the ends of an edge among the nodes. -/
def ends (g : CallGraph) (e : MethodRef × MethodRef) : Nat × Nat :=
  (g.nodes.idxOf e.1, g.nodes.idxOf e.2)

/-- The ends of an edge of the graph are found. -/
theorem ends?_of_mem {g : CallGraph} {e : MethodRef × MethodRef} (he : e ∈ g.edges) :
    g.ends? e = some (g.ends e) := by
  have hfound : ∀ m ∈ g.nodes, g.nodes.idxOf? m = some (g.nodes.idxOf m) := by
    intro m hm
    obtain ⟨i, hi⟩ := Option.isSome_iff_exists.1 (List.isSome_idxOf?.2 hm)
    rw [List.idxOf_eq_getD_idxOf?, hi, Option.getD_some]
  unfold ends? ends
  rw [hfound e.1 (g.closed e he).1, hfound e.2 (g.closed e he).2]

/-- No edge is passed over. -/
theorem edgeElements_eq (g : CallGraph) :
    g.edgeElements = (g.edges.map g.ends).zipIdx.map fun p => edgeElement p.1.1 p.1.2 p.2 := by
  unfold edgeElements
  rw [List.zipIdx_map, List.map_map, ← List.filterMap_eq_map]
  refine List.filterMap_congr fun ⟨e, i⟩ he => ?_
  simp only [ends?_of_mem (List.fst_mem_of_mem_zipIdx he)]
  rfl

theorem toList_gxl (id : String) (g : CallGraph) :
    (gxl id g).toList =
      opening id ++ ((g.nodes.zipIdx.map fun p => (p.1.text, p.2)).flatMap nodeChars ++
        ((g.edges.map g.ends).zipIdx.flatMap edgeChars ++ closing)) := by
  unfold gxl opening closing
  rw [edgeElements_eq]
  simp [List.flatMap_map, toList_nodeElement, toList_edgeElement]

theorem opening_unique {a b : String} {r s : List Char} (h : opening a ++ r = opening b ++ s) :
    a = b ∧ r = s := by
  unfold opening at h
  simp only [List.append_assoc, List.cons_append] at h
  obtain ⟨hab, hrest⟩ := escaped_unique (.inr rfl) (List.append_cancel_left h)
  exact ⟨hab, List.append_cancel_left hrest⟩

theorem legible_nodeChars : Legible (fun _ => True) (fun _ => True) nodeChars := by
  rintro ⟨a, i⟩ ⟨b, j⟩ _ _ r s _ _ h
  unfold nodeChars at h
  simp only [List.append_assoc, List.cons_append] at h
  obtain ⟨hij, hrest⟩ := legible_toDigits trivial trivial (by simp [Stops]) (by simp [Stops])
    (List.append_cancel_left h)
  obtain ⟨hab, hrest⟩ := escaped_unique (.inl rfl) (List.append_cancel_left hrest)
  exact ⟨Prod.ext hab hij, List.append_cancel_left hrest⟩

theorem legible_edgeChars : Legible (fun _ => True) (fun _ => True) edgeChars := by
  rintro ⟨⟨a, b⟩, i⟩ ⟨⟨a', b'⟩, i'⟩ _ _ r s _ _ h
  unfold edgeChars at h
  simp only [List.append_assoc] at h
  obtain ⟨hi, hrest⟩ := legible_toDigits trivial trivial (by simp [Stops]) (by simp [Stops])
    (List.append_cancel_left h)
  obtain ⟨ha, hrest⟩ := legible_toDigits trivial trivial (by simp [Stops]) (by simp [Stops])
    (List.append_cancel_left hrest)
  obtain ⟨hb, hrest⟩ := legible_toDigits trivial trivial (by simp [Stops]) (by simp [Stops])
    (List.append_cancel_left hrest)
  exact ⟨Prod.ext (Prod.ext ha hb) hi, List.append_cancel_left hrest⟩

/-- No node is mistaken for the first edge or for the end of the document. -/
theorem not_nodeChars_prefix (p : String × Nat) (es : List ((Nat × Nat) × Nat)) :
    ¬nodeChars p <+: es.flatMap edgeChars ++ closing := by
  unfold nodeChars edgeChars closing
  rcases es with _ | ⟨e, es⟩ <;> simp

theorem not_edgeChars_prefix (p : (Nat × Nat) × Nat) : ¬edgeChars p <+: closing := by
  unfold edgeChars closing
  simp

theorem eq_of_gxl_eq {id₁ id₂ : String} {g₁ g₂ : CallGraph} (h : gxl id₁ g₁ = gxl id₂ g₂) :
    id₁ = id₂ ∧ g₁.nodes.map MethodRef.text = g₂.nodes.map MethodRef.text ∧
      g₁.edges.map g₁.ends = g₂.edges.map g₂.ends := by
  have hall : ∀ {α : Type} (as : List α), ∀ a ∈ as, True := fun _ _ _ => trivial
  have h := congrArg String.toList h
  rw [toList_gxl, toList_gxl] at h
  obtain ⟨hid, h⟩ := opening_unique h
  obtain ⟨hnodes, h⟩ := legible_nodeChars.flatMap (fun _ _ _ => trivial) (hall _) (hall _) trivial
    trivial (fun p _ => not_nodeChars_prefix p _) (fun p _ => not_nodeChars_prefix p _) h
  obtain ⟨hedges, -⟩ := legible_edgeChars.flatMap (fun _ _ _ => trivial) (hall _) (hall _) trivial
    trivial (fun p _ => not_edgeChars_prefix p) (fun p _ => not_edgeChars_prefix p) h
  refine ⟨hid, ?_, ?_⟩
  · have hfst : ∀ g : CallGraph, (g.nodes.zipIdx.map fun p => (p.1.text, p.2)).map Prod.fst =
        g.nodes.map MethodRef.text := by
      intro g
      conv_rhs => rw [← List.zipIdx_map_fst 0 g.nodes, List.map_map]
      rw [List.map_map]
      rfl
    rw [← hfst g₁, ← hfst g₂, hnodes]
  · have hfst := congrArg (List.map Prod.fst) hedges
    rwa [List.zipIdx_map_fst, List.zipIdx_map_fst] at hfst

/-! ## How many elements -/

theorem lt_not_mem_toDigits (n : Nat) : '<' ∉ Nat.toDigits 10 n := by
  intro h
  exact absurd (Nat.isDigit_of_mem_toDigits (by decide) (by decide) h) (by decide)

theorem occurrences_nodeChars (p : String × Nat) (s : List Char) :
    occurrences "<node ".toList (nodeChars p ++ s) = 1 + occurrences "<node ".toList s ∧
      occurrences "<edge ".toList (nodeChars p ++ s) = 0 + occurrences "<edge ".toList s := by
  unfold nodeChars
  constructor <;>
    simp [occurrences_tag, occurrences_cons, occurrences_append (lt_not_mem_toDigits _),
      occurrences_append (not_mem_escaped (.inl rfl) _)]

theorem occurrences_edgeChars (p : (Nat × Nat) × Nat) (s : List Char) :
    occurrences "<node ".toList (edgeChars p ++ s) = 0 + occurrences "<node ".toList s ∧
      occurrences "<edge ".toList (edgeChars p ++ s) = 1 + occurrences "<edge ".toList s := by
  unfold edgeChars
  constructor <;>
    simp [occurrences_tag, occurrences_cons, occurrences_append (lt_not_mem_toDigits _)]

theorem occurrences_opening (id : String) (s : List Char) :
    occurrences "<node ".toList (opening id ++ s) = occurrences "<node ".toList s ∧
      occurrences "<edge ".toList (opening id ++ s) = occurrences "<edge ".toList s := by
  unfold opening
  constructor <;>
    simp [occurrences_tag, occurrences_cons, occurrences_append (not_mem_escaped (.inl rfl) _)]

theorem occurrences_closing :
    occurrences "<node ".toList closing = 0 ∧ occurrences "<edge ".toList closing = 0 := by
  unfold closing
  constructor <;> simp [occurrences]

theorem occurrences_gxl (id : String) (g : CallGraph) :
    occurrences "<node ".toList (gxl id g).toList = g.nodes.length ∧
      occurrences "<edge ".toList (gxl id g).toList = g.edges.length := by
  rw [toList_gxl, (occurrences_opening id _).1, (occurrences_opening id _).2,
    occurrences_flatMap fun p s => (occurrences_nodeChars p s).1,
    occurrences_flatMap fun p s => (occurrences_nodeChars p s).2,
    occurrences_flatMap fun p s => (occurrences_edgeChars p s).1,
    occurrences_flatMap fun p s => (occurrences_edgeChars p s).2, occurrences_closing.1,
    occurrences_closing.2]
  simp

/-! ## Graphs that are built -/

/-- What can be done to a call graph. -/
inductive Change
  | node (m : MethodRef)
  | edge (caller callee : MethodRef)

/-- The graph after a change. -/
def change (g : CallGraph) : Change → CallGraph
  | .node m => g.addNode m
  | .edge caller callee => g.addEdge caller callee

/-- The graph that changes build from nothing. -/
def built (cs : List Change) : CallGraph :=
  cs.foldl change empty

theorem nodup_change {g : CallGraph} (h : g.nodes.Nodup ∧ g.edges.Nodup) (c : Change) :
    (g.change c).nodes.Nodup ∧ (g.change c).edges.Nodup := by
  cases c with
  | node m => exact ⟨nodup_addNew m h.1, h.2⟩
  | edge caller callee =>
    exact ⟨nodup_addNew callee (nodup_addNew caller h.1), nodup_addNew (caller, callee) h.2⟩

theorem nodup_built (cs : List Change) : (built cs).nodes.Nodup ∧ (built cs).edges.Nodup := by
  refine List.foldlRecOn (motive := fun g : CallGraph => g.nodes.Nodup ∧ g.edges.Nodup) cs change
    ⟨List.nodup_nil, List.nodup_nil⟩ fun g hg c _ => ?_
  exact nodup_change hg c

theorem getElem?_ends (g : CallGraph) {e : MethodRef × MethodRef} (he : e ∈ g.edges) :
    g.nodes[(g.ends e).1]? = some e.1 ∧ g.nodes[(g.ends e).2]? = some e.2 :=
  ⟨List.getElem?_idxOf (g.closed e he).1, List.getElem?_idxOf (g.closed e he).2⟩

theorem nodeElement_infix (id : String) {g : CallGraph} {k : Nat} {m : MethodRef}
    (h : g.nodes[k]? = some m) : (nodeElement m k).toList <:+: (gxl id g).toList := by
  have hmem : nodeChars (m.text, k) ∈
      (g.nodes.zipIdx.map fun p => (p.1.text, p.2)).map nodeChars :=
    List.mem_map_of_mem (List.mem_map.2 ⟨(m, k), List.mem_zipIdx_iff_getElem?.2 h, rfl⟩)
  rw [toList_gxl, toList_nodeElement]
  calc nodeChars (m.text, k)
      <:+: (g.nodes.zipIdx.map fun p => (p.1.text, p.2)).flatMap nodeChars :=
        List.infix_of_mem_flatten hmem
    _ <:+: _ := (List.prefix_append _ _).isInfix
    _ <:+: _ := (List.suffix_append _ _).isInfix

theorem edgeElement_infix (id : String) {g : CallGraph} {k : Nat} {e : MethodRef × MethodRef}
    (h : g.edges[k]? = some e) :
    (edgeElement (g.ends e).1 (g.ends e).2 k).toList <:+: (gxl id g).toList := by
  have hmem : edgeChars (g.ends e, k) ∈ (g.edges.map g.ends).zipIdx.map edgeChars :=
    List.mem_map_of_mem (List.mem_zipIdx_iff_getElem?.2 (by simp [h]))
  rw [toList_gxl, toList_edgeElement]
  calc edgeChars (g.ends e, k)
      <:+: (g.edges.map g.ends).zipIdx.flatMap edgeChars := List.infix_of_mem_flatten hmem
    _ <:+: _ := (List.prefix_append _ _).isInfix
    _ <:+: _ := (List.suffix_append _ _).isInfix
    _ <:+: _ := (List.suffix_append _ _).isInfix

/-- The document of a graph that is built has one element for each node, with its signature, and one
for each edge, with the numbers of its ends, and no other; the document tells the graph. -/
theorem gxl_faithful :
    (∀ (id : String) (cs : List Change),
      (built cs).nodes.Nodup ∧ (built cs).edges.Nodup ∧
      occurrences "<node ".toList (gxl id (built cs)).toList = (built cs).nodes.length ∧
      occurrences "<edge ".toList (gxl id (built cs)).toList = (built cs).edges.length ∧
      (∀ k m, (built cs).nodes[k]? = some m →
        (nodeElement m k).toList <:+: (gxl id (built cs)).toList) ∧
      ∀ k e, (built cs).edges[k]? = some e → ∃ i j,
        (built cs).nodes[i]? = some e.1 ∧ (built cs).nodes[j]? = some e.2 ∧
          (edgeElement i j k).toList <:+: (gxl id (built cs)).toList) ∧
    ∀ (id₁ id₂ : String) (cs₁ cs₂ : List Change),
      gxl id₁ (built cs₁) = gxl id₂ (built cs₂) →
        id₁ = id₂ ∧ (built cs₁).nodes.map MethodRef.text = (built cs₂).nodes.map MethodRef.text ∧
          (built cs₁).edges.map (built cs₁).ends = (built cs₂).edges.map (built cs₂).ends := by
  refine ⟨fun id cs => ?_, fun id₁ id₂ cs₁ cs₂ h => eq_of_gxl_eq h⟩
  obtain ⟨hnodes, hedges⟩ := nodup_built cs
  refine ⟨hnodes, hedges, (occurrences_gxl id _).1, (occurrences_gxl id _).2,
    fun k m h => nodeElement_infix id h, fun k e h => ?_⟩
  obtain ⟨hsource, htarget⟩ := getElem?_ends (built cs) (List.mem_of_getElem? h)
  exact ⟨_, _, hsource, htarget, edgeElement_infix id h⟩

/-- A graph that is built in two ways, with a signature that holds a tag. -/
theorem gxl_faithful_tag :
    let tag : MethodRef := ⟨"<node \"a\">", "f", [], .void⟩
    let main : MethodRef := ⟨"A", "main", [], .void⟩
    let once := built [.edge main tag]
    let twice := built [.node main, .edge main tag, .edge main tag]
    gxl "&" once = gxl "&" twice ∧ once.nodes.map MethodRef.text = twice.nodes.map MethodRef.text ∧
      occurrences "<node ".toList (gxl "&" twice).toList = 2 ∧
      (nodeElement tag 1).toList <:+: (gxl "&" twice).toList ∧
      ∃ i j, twice.nodes[i]? = some main ∧ twice.nodes[j]? = some tag ∧
        (edgeElement i j 0).toList <:+: (gxl "&" twice).toList := by
  intro tag main once twice
  have hsame : gxl "&" once = gxl "&" twice := by
    have hbuilt : once = twice := by
      simp [once, twice, tag, main, built, change, addEdge, addNode, empty, addNew]
    rw [hbuilt]
  obtain ⟨-, -, hcount, -, hnode, hedge⟩ := gxl_faithful.1 "&"
    [.node main, .edge main tag, .edge main tag]
  exact ⟨hsame, (gxl_faithful.2 _ _ _ _ hsame).2.1, hcount, hnode 1 tag (by decide),
    hedge 0 (main, tag) (by decide)⟩

end CallGraph

end Standin
