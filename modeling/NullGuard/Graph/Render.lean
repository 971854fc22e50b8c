import NullGuard.Graph.Check

/-!
# Rendering graphs

Text forms of a graph and its parts: a block's label (the kinds of its first four operations
joined by ` ; `, then `…` when there are more, or `[<role>]` for an empty block), the one-line
descriptions of blocks, edges, regions and the graph, and a Graphviz rendering.
-/

namespace NullGuard.Graph

/-- The label of a block. -/
def label (g : Graph) (b : BlockId) : String :=
  let ops := (g.block b).ops
  if ops.isEmpty then "[" ++ (g.block b).role.text ++ "]"
  else
    let parts := (ops.take 4).map (·.kind.text)
    " ; ".intercalate (if ops.length > 4 then parts ++ ["…"] else parts)

/-- `BB<ordinal>(<role>, <count> ops)`. -/
def blockRepr (g : Graph) (b : BlockId) : String :=
  g.blockName b ++ "(" ++ (g.block b).role.text ++ ", " ++ toString (g.block b).ops.length ++ " ops)"

/-- `ExceptionRegion(<kind>: <ordinals>)`. -/
def regionRepr (g : Graph) (r : Region) : String :=
  "ExceptionRegion(" ++ r.kind.text ++ ": " ++ ",".intercalate (r.blocks.map fun b => toString (g.ordinal b)) ++ ")"

/-- `ControlFlowGraph(procedure=<quoted name>, blocks=<n>, edges=<m>)`. -/
def repr (g : Graph) (procedureName : String) : String :=
  "ControlFlowGraph(procedure=" ++ Text.quote procedureName ++ ", blocks=" ++
    toString g.members.length ++ ", edges=" ++ toString g.edges.length ++ ")"

/-- Escape the double quotes of a label. -/
def escapeQuotes (s : String) : String :=
  String.join (s.toList.map fun c => if c == '"' then "\\\"" else String.singleton c)

/-- The Graphviz line of a block. -/
def dotBlock (g : Graph) (b : BlockId) : String :=
  let color := match (g.block b).role with
    | .entry => ", style=filled, fillcolor=\"#ccffcc\""
    | .exit => ", style=filled, fillcolor=\"#ffcccc\""
    | .body => ""
  "  " ++ g.blockName b ++ " [label=\"" ++ g.blockName b ++ "\\n" ++ escapeQuotes (g.label b) ++
    "\"" ++ color ++ "];"

/-- The Graphviz line of an edge. -/
def dotEdge (g : Graph) (e : EdgeId) : String :=
  let l := g.link e
  let style := match l.kind with
    | .branchTrue => ", color=green, fontcolor=green"
    | .branchFalse => ", color=red, fontcolor=red"
    | .backEdge => ", style=dashed, color=blue, fontcolor=blue"
    | _ => ""
  "  " ++ g.blockName l.src ++ " -> " ++ g.blockName l.dst ++ " [label=\"" ++ l.kind.text ++ "\"" ++
    style ++ "];"

/-- The Graphviz rendering, with an optional title. -/
def toDot (g : Graph) (title : Option String) : String :=
  let head := ["digraph CFG \x7b"] ++
    (match title with
      | some t => if t.isEmpty then [] else ["  label=\"" ++ t ++ "\";"]
      | none => []) ++
    ["  node [shape=box, fontname=monospace, fontsize=10];"]
  "\n".intercalate (head ++ g.members.map g.dotBlock ++ g.edges.map g.dotEdge ++ ["\x7d"])

end NullGuard.Graph
