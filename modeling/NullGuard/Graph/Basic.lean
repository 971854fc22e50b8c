import NullGuard.Operation.Basic

/-!
# Control-flow graphs

The control-flow graph of one procedure: a synthetic entry block (ordinal 0), a synthetic
exit block (ordinal 1), and body blocks (ordinals 2, 3, … in order of creation) holding
top-level operation trees in source order. Edges carry their control-flow meaning, and
exception regions group the blocks of a try, catch or finally clause.

A `Graph` keeps every block and edge it has made in two stores, `cells` and `links`, indexed
by `BlockId` and `EdgeId`. The blocks that belong to the graph are listed in `members`, and the
edges that belong to it in `edges`; each block lists its own outgoing and incoming edges. In a
graph built with `addBlock` and `addEdge` alone these views agree; `detachedBlock`,
`attachSucc`, `attachPred` and `dropMember` make graphs where they do not, which is what
`Graph.validate` detects.
-/

namespace NullGuard

/-- The classification of an edge. -/
inductive EdgeKind where
  | fallThrough
  | branchTrue
  | branchFalse
  | backEdge
  | returnEdge
  | exception
  deriving DecidableEq, Inhabited

/-- The written name of an edge kind. -/
def EdgeKind.text : EdgeKind → String
  | .fallThrough => "fall-through"
  | .branchTrue => "branch-true"
  | .branchFalse => "branch-false"
  | .backEdge => "back-edge"
  | .returnEdge => "return"
  | .exception => "exception"

/-- The edge kind with a given written name. -/
def EdgeKind.ofText? (s : String) : Option EdgeKind :=
  [EdgeKind.fallThrough, .branchTrue, .branchFalse, .backEdge, .returnEdge, .exception].find?
    (·.text == s)

/-- The clause an exception region covers. -/
inductive RegionKind where
  | tryClause
  | catchClause
  | finallyClause
  deriving DecidableEq, Inhabited

/-- The written name of a region kind. -/
def RegionKind.text : RegionKind → String
  | .tryClause => "try"
  | .catchClause => "catch"
  | .finallyClause => "finally"

/-- The region kind with a given written name. -/
def RegionKind.ofText? (s : String) : Option RegionKind :=
  [RegionKind.tryClause, .catchClause, .finallyClause].find? (·.text == s)

/-- The role of a block. -/
inductive BlockRole where
  | entry
  | exit
  | body
  deriving DecidableEq, Inhabited

/-- The written name of a block role. -/
def BlockRole.text : BlockRole → String
  | .entry => "entry"
  | .exit => "exit"
  | .body => "body"

/-- The index of a block in its graph's store. -/
abbrev BlockId := Nat

/-- The index of an edge in its graph's store. -/
abbrev EdgeId := Nat

/-- A basic block: its ordinal, operations, role, and its outgoing and incoming edges. -/
structure Block where
  ordinal : Int
  ops : List Operation := []
  role : BlockRole := .body
  succs : List EdgeId := []
  preds : List EdgeId := []
  deriving Inhabited

/-- A directed edge between two blocks. -/
structure Edge where
  src : BlockId
  dst : BlockId
  kind : EdgeKind := .fallThrough
  deriving DecidableEq, Inhabited

/-- The blocks covered by one try, catch or finally clause. -/
structure Region where
  kind : RegionKind
  blocks : List BlockId
  deriving Inhabited

/-- The control-flow graph of one procedure. -/
structure Graph where
  method : MethodId
  cells : Array Block
  links : Array Edge := #[]
  members : List BlockId
  edges : List EdgeId := []
  regions : List Region := []
  entry : BlockId := 0
  exit : BlockId := 1
  deriving Inhabited

namespace Graph

/-- The graph of a procedure with only its entry and exit blocks. -/
def new (m : MethodId) : Graph :=
  { method := m, cells := #[{ ordinal := 0, role := .entry }, { ordinal := 1, role := .exit }],
    members := [0, 1] }

/-- The block with a given identity. -/
def block (g : Graph) (b : BlockId) : Block := g.cells[b]?.getD default

/-- The edge with a given identity. -/
def link (g : Graph) (e : EdgeId) : Edge := g.links[e]?.getD default

/-- The ordinal of a block. -/
def ordinal (g : Graph) (b : BlockId) : Int := (g.block b).ordinal

/-- Change one stored block. -/
def modifyBlock (g : Graph) (b : BlockId) (f : Block → Block) : Graph :=
  { g with cells := g.cells.modify b f }

/-- Append a body block holding operations; its ordinal is the number of member blocks. -/
def addBlock (g : Graph) (ops : List Operation) : Graph × BlockId :=
  let b := g.cells.size
  ({ g with cells := g.cells.push { ordinal := g.members.length, ops }, members := g.members ++ [b] }, b)

/-- Replace the operations of a block. -/
def setOps (g : Graph) (b : BlockId) (ops : List Operation) : Graph :=
  g.modifyBlock b fun blk => { blk with ops }

/-- Store a new edge without registering it anywhere. -/
def newLink (g : Graph) (e : Edge) : Graph × EdgeId :=
  ({ g with links := g.links.push e }, g.links.size)

/-- Add an edge: registered with the graph, listed by its source and by its target. -/
def addEdge (g : Graph) (src dst : BlockId) (kind : EdgeKind) : Graph :=
  let (g, e) := g.newLink { src, dst, kind }
  let g := { g with edges := g.edges ++ [e] }
  let g := g.modifyBlock src fun blk => { blk with succs := blk.succs ++ [e] }
  g.modifyBlock dst fun blk => { blk with preds := blk.preds ++ [e] }

/-- Add an exception region. -/
def addRegion (g : Graph) (kind : RegionKind) (blocks : List BlockId) : Graph :=
  { g with regions := g.regions ++ [{ kind, blocks }] }

/-! ### Malformations -/

/-- Make a block with a given ordinal that does not belong to the graph. -/
def detachedBlock (g : Graph) (ordinal : Int) : Graph × BlockId :=
  ({ g with cells := g.cells.push { ordinal } }, g.cells.size)

/-- List an edge among a block's outgoing edges without registering it with the graph. -/
def attachSucc (g : Graph) (b : BlockId) (e : Edge) : Graph :=
  let (g, id) := g.newLink e
  g.modifyBlock b fun blk => { blk with succs := blk.succs ++ [id] }

/-- List an edge among a block's incoming edges without registering it with the graph. -/
def attachPred (g : Graph) (b : BlockId) (e : Edge) : Graph :=
  let (g, id) := g.newLink e
  g.modifyBlock b fun blk => { blk with preds := blk.preds ++ [id] }

/-- Remove a block from the member list; `none` when it is not a member. -/
def dropMember? (g : Graph) (b : BlockId) : Option Graph :=
  if g.members.contains b then some { g with members := g.members.erase b } else none

/-! ### Neighbours -/

/-- The targets of a block's outgoing edges, in edge order. -/
def succBlocks (g : Graph) (b : BlockId) : List BlockId :=
  (g.block b).succs.map fun e => (g.link e).dst

/-- The sources of a block's incoming edges, in edge order. -/
def predBlocks (g : Graph) (b : BlockId) : List BlockId :=
  (g.block b).preds.map fun e => (g.link e).src

end Graph

end NullGuard
