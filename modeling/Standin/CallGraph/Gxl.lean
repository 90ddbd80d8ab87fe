import Standin.CallGraph

/-!
# Call graphs as GXL

The graph as an XML document: a node element with its signature for each method and an edge element
for each call, numbered from zero.
-/

namespace Standin.CallGraph

/-- One character of a text or an attribute. -/
def escapedChar (c : Char) : List Char :=
  if c = '<' then "&lt;".toList
  else if c = '>' then "&gt;".toList
  else if c = '&' then "&amp;".toList
  else if c = '\x27' then "&apos;".toList
  else if c = '"' then "&quot;".toList
  else [c]

def escaped (s : String) : String :=
  String.ofList (s.toList.flatMap escapedChar)

def nodeElement (m : MethodRef) (i : Nat) : String :=
  "    <node id=\"n" ++ i.repr ++ "\">\n" ++
    "      <attr name=\"signature\">\n" ++
    "        <string>" ++ escaped m.text ++ "</string>\n" ++
    "      </attr>\n" ++
    "    </node>\n"

def edgeElement (source target i : Nat) : String :=
  "    <edge id=\"e" ++ i.repr ++ "\" from=\"n" ++ source.repr ++ "\" to=\"n" ++ target.repr ++
    "\"/>\n"

/-- The positions of the ends of an edge among the nodes, if both are nodes. -/
def ends? (g : CallGraph) (e : MethodRef × MethodRef) : Option (Nat × Nat) :=
  match g.nodes.idxOf? e.1, g.nodes.idxOf? e.2 with
  | some source, some target => some (source, target)
  | _, _ => none

/-- The elements of the edges. An edge whose ends are not found is passed over, and its number is
not given to another. -/
def edgeElements (g : CallGraph) : List String :=
  g.edges.zipIdx.filterMap fun (e, i) =>
    match g.ends? e with
    | some (source, target) => some (edgeElement source target i)
    | none => none

/-- The name of the graph in a document, unless another is given. -/
def defaultId : String := "callgraph"

/-- The document of a graph. -/
def gxl (id : String) (g : CallGraph) : String :=
  "<?xml version=\"1.0\" encoding=\"UTF-8\"?>\n<gxl>\n" ++
    "  <graph id=\"" ++ escaped id ++ "\" edgeids=\"true\" edgemode=\"directed\">\n" ++
    String.join (g.nodes.zipIdx.map fun (m, i) => nodeElement m i) ++
    String.join g.edgeElements ++
    "  </graph>\n</gxl>"

end Standin.CallGraph
