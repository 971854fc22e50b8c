import NullGuard.Graph.Basic
import NullGuard.Failure

/-!
# Structural checks of graphs

`Graph.validate` accepts a graph whose views agree and otherwise names the first fault found,
checking in this order:

1. the entry and the exit belong to the graph (`missingEntryOrExit`);
2. every edge of the graph joins two blocks of the graph (`foreignBlock`);
3. for each block in order, every edge it lists, outgoing first, is an edge of the graph with
   that block at the right end (`danglingEdge`).

`Graph.unhandledThrowBlocks` are the blocks that throw out of the procedure: a top-level throw
outside every try region.
-/

namespace NullGuard.Graph

/-- `BB<ordinal>`. -/
def blockName (g : Graph) (b : BlockId) : String := "BB" ++ toString (g.ordinal b)

/-- `CFGEdge(BB<src> -> BB<dst>, kind='<kind>')`. -/
def edgeRepr (g : Graph) (e : EdgeId) : String :=
  let l := g.link e
  "CFGEdge(" ++ g.blockName l.src ++ " -> " ++ g.blockName l.dst ++ ", kind='" ++ l.kind.text ++ "')"

/-- Whether a block lies inside a try region. -/
def isHandled (g : Graph) (b : BlockId) : Bool :=
  g.regions.any fun r => r.kind == .tryClause && r.blocks.contains b

/-- The member blocks holding a top-level throw outside every try region, in member order. -/
def unhandledThrowBlocks (g : Graph) : List BlockId :=
  g.members.filter fun b => !g.isHandled b && (g.block b).ops.any (·.kind == .throwStatement)

/-- The first dangling edge of a block, outgoing ones first. -/
def danglingOf (g : Graph) (b : BlockId) : Option String :=
  if (g.block b).succs.any fun e => (g.link e).src != b || !g.edges.contains e then
    some (g.blockName b ++ " lists an unregistered successor edge")
  else if (g.block b).preds.any fun e => (g.link e).dst != b || !g.edges.contains e then
    some (g.blockName b ++ " lists an unregistered predecessor edge")
  else none

/-- Check that the graph's views agree; `subject` is the rendered procedure. -/
def validate (g : Graph) (subject : String) : Except Failure Unit :=
  if !(g.members.contains g.entry && g.members.contains g.exit) then
    .error ⟨.missingEntryOrExit, "entry or exit block is not part of the graph", some subject⟩
  else
    match g.edges.find? fun e => !(g.members.contains (g.link e).src && g.members.contains (g.link e).dst) with
    | some e =>
      .error ⟨.foreignBlock, "edge " ++ g.edgeRepr e ++ " touches a block outside the graph", some subject⟩
    | none =>
      match g.members.findSome? g.danglingOf with
      | some msg => .error ⟨.danglingEdge, msg, some subject⟩
      | none => .ok ()

end NullGuard.Graph
