import NullGuard.Graph.Basic

/-!
# Traversal orders

* `Graph.reversePostorder` lists the blocks reachable from the entry in reverse post-order of
  a depth-first search that explores successors in edge order;
* `Graph.reachableFrom` gives the ordinals of the blocks reachable from a block.

Both searches remember visited blocks by ordinal, so of two blocks sharing an ordinal only the
first reached is explored. Every search step visits a new ordinal, hence a new block of the
store, which bounds the recursion by the store's size.
-/

namespace NullGuard.Graph

/-- Depth-first search from `b`, whose ordinal is already visited: explores each successor
whose ordinal is not yet visited, in edge order, and returns the visited ordinals and the
blocks in post-order. -/
def dfs (g : Graph) : Nat → List Int → BlockId → List Int × List BlockId
  | 0, visited, b => (visited, [b])
  | fuel + 1, visited, b =>
    let step (acc : List Int × List BlockId) (s : BlockId) : List Int × List BlockId :=
      if acc.1.contains (g.ordinal s) then acc
      else
        let (vis, post) := g.dfs fuel (g.ordinal s :: acc.1) s
        (vis, acc.2 ++ post)
    let (vis, post) := (g.succBlocks b).foldl step (visited, [])
    (vis, post ++ [b])

/-- The blocks reachable from the entry, in reverse post-order. -/
def reversePostorder (g : Graph) : List BlockId :=
  (g.dfs (g.cells.size + 1) [g.ordinal g.entry] g.entry).2.reverse

/-- The stack search behind `reachableFrom`: pop a block, skip it if its ordinal is visited,
otherwise visit it and push its successors. -/
def reachLoop (g : Graph) : Nat → List Int → List BlockId → List Int
  | 0, visited, _ => visited
  | _ + 1, visited, [] => visited
  | fuel + 1, visited, b :: stack =>
    if visited.contains (g.ordinal b) then g.reachLoop fuel visited stack
    else g.reachLoop fuel (g.ordinal b :: visited) ((g.succBlocks b).reverse ++ stack)

/-- The ordinals of the blocks reachable from `start`, in increasing order. -/
def reachableFrom (g : Graph) (start : BlockId) : List Int :=
  let total := g.cells.toList.foldl (fun n blk => n + blk.succs.length) 0
  (g.reachLoop (total + 2) [] [start]).mergeSort (· ≤ ·)

end NullGuard.Graph
