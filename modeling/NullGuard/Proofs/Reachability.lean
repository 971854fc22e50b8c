import NullGuard.Proofs.Postorder

/-!
# The stack search, and reverse post-order as a depth-first order

`Graph.reachableFrom` pops a block from a stack, skips it when its ordinal is visited, and
otherwise visits its ordinal and pushes its successors. Its fuel is the number of edges the
stored blocks list, plus two, and is never exhausted: the stack's length plus the successor
counts of the stored blocks whose ordinal is not yet visited (`Graph.pending`) falls at every
step, since visiting an ordinal takes the counts of all the blocks having it.

When the blocks reachable from the start have distinct ordinals, the visited ordinals and the
stack keep a `Frontier`: an edge out of a visited reachable block leads to a visited ordinal
or to a block on the stack. With the stack empty, the visited ordinals are exactly those of
the reachable blocks (`mem_reachableFrom_iff`).

`Graph.DepthFirstOrder` says what a depth-first order of the reachable blocks is: each listed
once, the entry first, and every edge out of a reachable block forward unless it closes a cycle
through its target. `Graph.reversePostorder_depthFirst` shows that reverse post-order is one,
with the same ordinals as the stack search, and so a topological order when the reachable part
has no cycle.
-/

namespace NullGuard.Graph

/-! ### What the stack search may still pop -/

/-- The successor counts of the blocks of a list whose ordinal is not visited. -/
def unvisitedWeight : List Block → List Int → Nat
  | [], _ => 0
  | blk :: l, visited => (if visited.contains blk.ordinal then 0 else blk.succs.length) + unvisitedWeight l visited

/-- The stack's length and the successor counts of the stored blocks whose ordinal is not
visited. -/
def pending (g : Graph) (visited : List Int) (stack : List BlockId) : Nat :=
  stack.length + unvisitedWeight g.cells.toList visited

/-- Before any visit, the weight is the number of edges the blocks list. -/
theorem foldl_succs_length (l : List Block) (k : Nat) :
    l.foldl (fun n blk => n + blk.succs.length) k = k + unvisitedWeight l [] := by
  induction l generalizing k with
  | nil => simp [unvisitedWeight]
  | cons c l ih => simp [unvisitedWeight, ih]; omega

/-- A block counts no more once one more ordinal is visited. -/
private theorem count_cons_le (c : Block) (o : Int) (visited : List Int) :
    (if (o :: visited).contains c.ordinal then 0 else c.succs.length) ≤
      (if visited.contains c.ordinal then 0 else c.succs.length) := by
  cases h : visited.contains c.ordinal <;> simp only [h, List.contains_cons, Bool.or_true] <;> split <;> simp

theorem unvisitedWeight_cons_le (l : List Block) (o : Int) (visited : List Int) :
    unvisitedWeight l (o :: visited) ≤ unvisitedWeight l visited := by
  induction l with
  | nil => simp [unvisitedWeight]
  | cons c l ih =>
    have := count_cons_le c o visited
    simp only [unvisitedWeight]
    omega

/-- Visiting a new ordinal takes the successor count of every stored block that has it. -/
theorem unvisitedWeight_cons_add_le {l : List Block} {visited : List Int} {blk : Block}
    (hblk : blk ∈ l) (hnew : visited.contains blk.ordinal = false) :
    blk.succs.length + unvisitedWeight l (blk.ordinal :: visited) ≤ unvisitedWeight l visited := by
  induction l with
  | nil => cases hblk
  | cons c l ih =>
    rcases List.mem_cons.mp hblk with rfl | hblk
    · -- the block itself now counts nothing
      have := unvisitedWeight_cons_le l blk.ordinal visited
      simp only [unvisitedWeight, List.contains_cons, beq_self_eq_true, Bool.true_or, if_true, hnew,
        Bool.false_eq_true, if_false]
      omega
    · have := ih hblk
      have := count_cons_le c blk.ordinal visited
      simp only [unvisitedWeight]
      omega

theorem length_succBlocks (g : Graph) (b : BlockId) : (g.succBlocks b).length = (g.block b).succs.length := by
  simp [succBlocks]

/-- A block read from the graph is a stored one, or the default block, which lists no edges. -/
theorem block_mem_or_succs_nil (g : Graph) (b : BlockId) :
    g.block b ∈ g.cells.toList ∨ (g.block b).succs = [] := by
  unfold block
  cases h : g.cells[b]? with
  | none => exact .inr rfl
  | some blk =>
    obtain ⟨hb, rfl⟩ := Array.getElem?_eq_some_iff.mp h
    exact .inl (by simp)

/-- Visiting a block with a new ordinal lowers what the search may still pop. -/
theorem pending_visit_lt (g : Graph) {visited : List Int} {b : BlockId} (rest : List BlockId)
    (hnew : visited.contains (g.ordinal b) = false) :
    g.pending (g.ordinal b :: visited) ((g.succBlocks b).reverse ++ rest) < g.pending visited (b :: rest) := by
  unfold pending
  simp only [List.length_append, List.length_reverse, length_succBlocks, List.length_cons]
  rcases block_mem_or_succs_nil g b with hmem | hnil
  · have := unvisitedWeight_cons_add_le hmem hnew
    unfold ordinal at this ⊢
    omega
  · have := unvisitedWeight_cons_le g.cells.toList (g.ordinal b) visited
    rw [hnil]
    simp only [List.length_nil]
    omega

/-! ### The frontier of the stack search -/

/-- The visited ordinals and the stack of a search from `start`: both hold reachable blocks
only, the start is visited or on the stack, and an edge out of a visited reachable block leads
to a visited ordinal or to a block on the stack. -/
structure Frontier (g : Graph) (start : BlockId) (visited : List Int) (stack : List BlockId) : Prop where
  stack_reach : ∀ b ∈ stack, g.Reaches start b
  visited_reach : ∀ o ∈ visited, ∃ b, g.Reaches start b ∧ g.ordinal b = o
  covered : g.ordinal start ∈ visited ∨ start ∈ stack
  closed : ∀ x, g.Reaches start x → g.ordinal x ∈ visited → ∀ y ∈ g.succBlocks x, g.ordinal y ∈ visited ∨ y ∈ stack

variable {g : Graph} {start : BlockId}

theorem frontier_start (g : Graph) (start : BlockId) : Frontier g start [] [start] where
  stack_reach b hb := by rw [List.mem_singleton.mp hb]; exact Reaches.refl g _
  visited_reach _ h := by cases h
  covered := .inr List.mem_cons_self
  closed _ _ h := by cases h

/-- Popping a block whose ordinal is visited keeps the frontier. -/
theorem Frontier.skip {visited : List Int} {b : BlockId} {rest : List BlockId}
    (hf : Frontier g start visited (b :: rest)) (hb : g.ordinal b ∈ visited) : Frontier g start visited rest where
  stack_reach x hx := hf.stack_reach x (List.mem_cons_of_mem _ hx)
  visited_reach := hf.visited_reach
  covered := by
    rcases hf.covered with h | h
    · exact .inl h
    · rcases List.mem_cons.mp h with rfl | h
      · exact .inl hb
      · exact .inr h
  closed x hx ho y hy := by
    rcases hf.closed x hx ho y hy with h | h
    · exact .inl h
    · rcases List.mem_cons.mp h with rfl | h
      · exact .inl hb
      · exact .inr h

/-- Visiting a block with a new ordinal keeps the frontier, when the reachable blocks have
distinct ordinals: a visited reachable block with the same ordinal is the block itself, whose
successors are now on the stack. -/
theorem Frontier.visit
    (hinj : ∀ a c, g.Reaches start a → g.Reaches start c → g.ordinal a = g.ordinal c → a = c)
    {visited : List Int} {b : BlockId} {rest : List BlockId} (hf : Frontier g start visited (b :: rest)) :
    Frontier g start (g.ordinal b :: visited) ((g.succBlocks b).reverse ++ rest) where
  stack_reach x hx := by
    rcases List.mem_append.mp hx with hx | hx
    · exact (hf.stack_reach b List.mem_cons_self).tail (List.mem_reverse.mp hx)
    · exact hf.stack_reach x (List.mem_cons_of_mem _ hx)
  visited_reach o ho := by
    rcases List.mem_cons.mp ho with rfl | ho
    · exact ⟨b, hf.stack_reach b List.mem_cons_self, rfl⟩
    · exact hf.visited_reach o ho
  covered := by
    rcases hf.covered with h | h
    · exact .inl (List.mem_cons_of_mem _ h)
    · rcases List.mem_cons.mp h with rfl | h
      · exact .inl List.mem_cons_self
      · exact .inr (List.mem_append_right _ h)
  closed x hx ho y hy := by
    rcases List.mem_cons.mp ho with ho | ho
    · have hxb : x = b := hinj x b hx (hf.stack_reach b List.mem_cons_self) ho
      subst hxb
      exact .inr (List.mem_append_left _ (List.mem_reverse.mpr hy))
    · rcases hf.closed x hx ho y hy with h | h
      · exact .inl (List.mem_cons_of_mem _ h)
      · rcases List.mem_cons.mp h with rfl | h
        · exact .inl List.mem_cons_self
        · exact .inr (List.mem_append_right _ h)

/-- With the stack empty, the visited ordinals are those of every reachable block. -/
theorem Frontier.done {visited : List Int} (hf : Frontier g start visited []) {b : BlockId}
    (hb : g.Reaches start b) : g.ordinal b ∈ visited := by
  have hstart : g.ordinal start ∈ visited := hf.covered.resolve_right (List.not_mem_nil)
  -- the reachable blocks with a visited ordinal hold the start and are closed under successors
  have h := Reaches.closed (S := fun x => g.Reaches start x ∧ g.ordinal x ∈ visited) hb
    ⟨Reaches.refl g _, hstart⟩ fun x ⟨hx, ho⟩ y hy =>
      ⟨hx.tail hy, (hf.closed x hx ho y hy).resolve_right List.not_mem_nil⟩
  exact h.2

/-- With more fuel than it may still pop, the search from a frontier visits exactly the
ordinals of the reachable blocks. -/
theorem reachLoop_frontier
    (hinj : ∀ a c, g.Reaches start a → g.Reaches start c → g.ordinal a = g.ordinal c → a = c) :
    ∀ (fuel : Nat) (visited : List Int) (stack : List BlockId), g.pending visited stack < fuel →
      Frontier g start visited stack →
      ∀ o, o ∈ g.reachLoop fuel visited stack ↔ ∃ b, g.Reaches start b ∧ g.ordinal b = o
  | 0, _, _, h, _ => absurd h (Nat.not_lt_zero _)
  | _ + 1, visited, [], _, hf => fun o =>
    ⟨hf.visited_reach o, fun ⟨b, hb, hbo⟩ => hbo ▸ hf.done hb⟩
  | fuel + 1, visited, b :: rest, hfuel, hf => by
    unfold reachLoop
    split
    · rename_i hb
      refine reachLoop_frontier hinj fuel visited rest ?_ (hf.skip (List.contains_iff_mem.mp hb))
      unfold pending at hfuel ⊢
      simp only [List.length_cons] at hfuel
      omega
    · rename_i hb
      have hlt := pending_visit_lt g rest (Bool.eq_false_iff.mpr hb)
      exact reachLoop_frontier hinj fuel _ _ (by omega) (hf.visit hinj)

/-- When the blocks reachable from `start` have distinct ordinals, the stack search gives
exactly their ordinals. -/
theorem mem_reachableFrom_iff
    (hinj : ∀ a c, g.Reaches start a → g.Reaches start c → g.ordinal a = g.ordinal c → a = c) (o : Int) :
    o ∈ g.reachableFrom start ↔ ∃ b, g.Reaches start b ∧ g.ordinal b = o := by
  unfold reachableFrom
  rw [List.mem_mergeSort]
  refine reachLoop_frontier hinj _ [] [start] ?_ (frontier_start g start) o
  unfold pending
  rw [foldl_succs_length, List.length_singleton]
  omega

/-! ### Depth-first orders -/

/-- A depth-first order of the blocks reachable from the entry: each listed once and nothing
else, the entry first, and every edge out of a reachable block going forward unless its target
reaches its source. -/
structure DepthFirstOrder (g : Graph) (order : List BlockId) : Prop where
  mem_iff : ∀ b, b ∈ order ↔ g.Reaches g.entry b
  nodup : order.Nodup
  head : order.head? = some g.entry
  edge : ∀ u v, g.Reaches g.entry u → v ∈ g.succBlocks u → [u, v].Sublist order ∨ g.Reaches v u

/-- The reachable part of a graph has no cycle. -/
def AcyclicFromEntry (g : Graph) : Prop := ∀ b, g.Reaches g.entry b → ¬ Relation.TransGen g.Succ b b

/-- Without cycles, a depth-first order is a topological order. -/
theorem DepthFirstOrder.topological {order : List BlockId} (h : g.DepthFirstOrder order)
    (hacyc : g.AcyclicFromEntry) {u v : BlockId} (hu : g.Reaches g.entry u) (hv : v ∈ g.succBlocks u) :
    [u, v].Sublist order := by
  refine (h.edge u v hu hv).resolve_right fun hvu => ?_
  -- the edge and the way back form a cycle through `u`
  exact hacyc u hu (Relation.TransGen.head' hv hvu)

/-- When the reachable blocks have distinct ordinals, reverse post-order is a depth-first order
with the ordinals the stack search finds, and a topological order when the reachable part has
no cycle. -/
theorem reversePostorder_depthFirst
    (hinj : ∀ a b, g.Reaches g.entry a → g.Reaches g.entry b → g.ordinal a = g.ordinal b → a = b) :
    g.DepthFirstOrder g.reversePostorder ∧
      (∀ o, o ∈ g.reachableFrom g.entry ↔ ∃ b ∈ g.reversePostorder, g.ordinal b = o) ∧
      (g.AcyclicFromEntry →
        ∀ u v, g.Reaches g.entry u → v ∈ g.succBlocks u → [u, v].Sublist g.reversePostorder) := by
  have hmem : ∀ b, b ∈ g.reversePostorder ↔ g.Reaches g.entry b := fun b =>
    ⟨reaches_of_mem_reversePostorder, mem_reversePostorder hinj⟩
  have hdfs : g.DepthFirstOrder g.reversePostorder :=
    ⟨hmem, reversePostorder_nodup g, reversePostorder_head g, fun _ _ hu hv => reversePostorder_edge hinj hu hv⟩
  refine ⟨hdfs, fun o => ?_, fun hacyc u v hu hv => hdfs.topological hacyc hu hv⟩
  rw [mem_reachableFrom_iff hinj]
  simp only [hmem]

/-- A branch whose arms meet at a block that loops back to the branch and leaves to the exit:
entry → 2, 2 → 3, 2 → 4, 3 → 4, 4 → 2, 4 → exit. -/
def branchLoopGraph : Graph :=
  let (g, a) := (Graph.new 0).addBlock []
  let (g, b) := g.addBlock []
  let (g, c) := g.addBlock []
  let g := ((g.addEdge g.entry a .fallThrough).addEdge a b .branchTrue).addEdge a c .branchFalse
  ((g.addEdge b c .fallThrough).addEdge c a .backEdge).addEdge c g.exit .returnEdge

/-- On the branch with a loop, reverse post-order is `0, 2, 3, 4, 1`: the back edge from 4 to 2
is the one edge that goes backward. -/
theorem reversePostorder_depthFirst_branchLoop :
    (∀ a b, branchLoopGraph.Reaches branchLoopGraph.entry a → branchLoopGraph.Reaches branchLoopGraph.entry b →
      branchLoopGraph.ordinal a = branchLoopGraph.ordinal b → a = b) ∧
    branchLoopGraph.reversePostorder = [0, 2, 3, 4, 1] ∧
    branchLoopGraph.DepthFirstOrder branchLoopGraph.reversePostorder ∧
      (∀ o, o ∈ branchLoopGraph.reachableFrom branchLoopGraph.entry ↔
        ∃ b ∈ branchLoopGraph.reversePostorder, branchLoopGraph.ordinal b = o) ∧
      (branchLoopGraph.AcyclicFromEntry → ∀ u v, branchLoopGraph.Reaches branchLoopGraph.entry u →
        v ∈ branchLoopGraph.succBlocks u → [u, v].Sublist branchLoopGraph.reversePostorder) := by
  have hreach : ∀ b, branchLoopGraph.Reaches branchLoopGraph.entry b → b ∈ [0, 2, 3, 4, 1] := fun b hb =>
    Reaches.closed hb (by decide) (by decide)
  have hinj : ∀ a b, branchLoopGraph.Reaches branchLoopGraph.entry a →
      branchLoopGraph.Reaches branchLoopGraph.entry b → branchLoopGraph.ordinal a = branchLoopGraph.ordinal b →
        a = b := by
    intro a b ha hb
    have key : ∀ a ∈ [0, 2, 3, 4, 1], ∀ b ∈ [0, 2, 3, 4, 1],
        branchLoopGraph.ordinal a = branchLoopGraph.ordinal b → a = b := by
      decide
    exact key a (hreach a ha) b (hreach b hb)
  exact ⟨hinj, by decide, reversePostorder_depthFirst hinj⟩

end NullGuard.Graph
