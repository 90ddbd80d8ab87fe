import Std.Data.HashMap
import Standin.Program

/-!
# The classes of a program by name

An index finds the classes of a program without a search. It holds what a search through the classes
finds (`Index.table_eq`), and what it holds is declared, so one can go on from a class that it finds
without leaving the program.
-/

namespace Standin.Program

/-- A class of a program. -/
abbrev Class (p : Program) : Type :=
  {c : ClassDecl // c ∈ p.classes}

/-- A table of the classes of a program. -/
structure Index (p : Program) where
  table : Std.HashMap String p.Class
  table_eq : ∀ name, table[name]?.map Subtype.val = p.class? name

/-- The table of all classes of a program. -/
def index (p : Program) : p.Index where
  table := .ofList (p.classes.attach.map fun c => (c.1.name, c))
  table_eq name := by
    unfold class?
    cases h : p.classes.find? fun c => c.name = name with
    | none =>
      rw [Option.map_eq_none_iff]
      refine Std.HashMap.getElem?_ofList_of_contains_eq_false ?_
      simpa [Function.comp_def] using h
    | some c =>
      obtain ⟨hc, hmem⟩ := And.intro (List.find?_some h) (List.mem_of_find?_eq_some h)
      rw [Option.map_eq_some_iff]
      refine ⟨⟨c, hmem⟩, Std.HashMap.getElem?_ofList_of_mem (k := c.name) (by simpa using hc) ?_ ?_,
        rfl⟩
      · have hd := p.distinct
        rw [← List.attach_map_subtype_val p.classes, List.map_map, List.Nodup,
          List.pairwise_map] at hd
        exact List.pairwise_map.2 (hd.imp fun hne => by simpa using hne)
      · exact List.mem_map.2 ⟨⟨c, hmem⟩, List.mem_attach _ _, rfl⟩

namespace Index

variable {p : Program}

/-- The class of a name. -/
def class? (ix : p.Index) (name : String) : Option p.Class :=
  ix.table[name]?

/-- The class right above another, if it is declared. -/
def superclass? (ix : p.Index) (c : p.Class) : Option p.Class :=
  c.1.superclass.bind ix.class?

theorem map_class? (ix : p.Index) (name : String) :
    (ix.class? name).map Subtype.val = p.class? name :=
  ix.table_eq name

theorem map_superclass? (ix : p.Index) (c : p.Class) :
    (ix.superclass? c).map Subtype.val = p.superclass? c.1 := by
  unfold superclass? Program.superclass?
  rw [Option.map_bind]
  exact congrArg c.1.superclass.bind (funext ix.map_class?)

end Index

end Standin.Program
