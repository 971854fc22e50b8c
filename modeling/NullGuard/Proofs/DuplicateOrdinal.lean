import NullGuard.Proofs.SinglePass

/-!
# Graphs with a repeated ordinal

`Graph.validate` checks that the entry and the exit are members, that every registered edge joins
members, and that every edge a member lists is registered with that member at the right end. It
does not check that ordinals are distinct. Reverse post-order marks ordinals, so of two reachable
blocks that share one only the first met is listed, and the solver, which ranks blocks by that
list, never visits the other. The hypothesis `Graph.Coherent` of `solve_least_solution` and of
`solve_onePass` cannot be dropped:

* `Graph.dupGraph`: a diamond whose second arm is a block of ordinal `2`, appended to the member
  list beside the arm that `addBlock` numbered `2`; it passes `validate`, all four blocks are
  reachable, and it is not coherent;
* `solve_skips_repeated_ordinal`: the solver returns, and the second arm has no facts;
* `solve_visits_fewer_than_reachable`: on this acyclic graph the solver visits three blocks of the
  four reachable ones.
-/

namespace NullGuard

namespace Graph

/-- The entry branches to two arms that both fall through to the exit; the second arm is a block
of ordinal `2` added to the member list directly, beside the arm `addBlock` gave ordinal `2`. -/
def dupGraph : Graph :=
  let g := (((Graph.new 0).addBlock []).1.detachedBlock 2).1
  ((({ g with members := g.members ++ [3] }.addEdge 0 2 .fallThrough).addEdge 0 3 .fallThrough).addEdge 2 1
    .fallThrough).addEdge 3 1 .fallThrough

theorem dupGraph_validate (subject : String) : dupGraph.validate subject = .ok () := rfl

theorem dupGraph_reversePostorder : dupGraph.reversePostorder = [0, 2, 1] := rfl

theorem dupGraph_reaches_iff (b : BlockId) : dupGraph.Reaches dupGraph.entry b ↔ b ∈ [0, 2, 3, 1] := by
  constructor
  · intro hb
    exact Reaches.closed hb (by decide) (by decide)
  · intro hb
    have h2 : dupGraph.Reaches dupGraph.entry 2 := (Reaches.refl _ _).tail (by decide)
    have h3 : dupGraph.Reaches dupGraph.entry 3 := (Reaches.refl _ _).tail (by decide)
    simp only [List.mem_cons, List.not_mem_nil, or_false] at hb
    rcases hb with rfl | rfl | rfl | rfl
    exacts [Reaches.refl _ _, h2, h3, h2.tail (by decide)]

/-- Both arms are reachable and carry ordinal `2`. -/
theorem dupGraph_not_coherent : ¬ dupGraph.Coherent := by
  intro hg
  have h23 := hg.ordinal_inj 2 3 ((dupGraph_reaches_iff 2).2 (by simp)) ((dupGraph_reaches_iff 3).2 (by simp)) rfl
  exact absurd h23 (by decide)

theorem dupGraph_acyclic : dupGraph.AcyclicFromEntry := by
  -- the entry, then the two arms, then the exit
  refine Dataflow.acyclicFromEntry_of_height (fun b => if b = 0 then 0 else if b = 1 then 2 else 1) fun a ha => ?_
  have key : ∀ a ∈ [0, 2, 3, 1], ∀ b ∈ dupGraph.succBlocks a,
      (if a = 0 then 0 else if a = 1 then 2 else 1) < (if b = 0 then 0 else if b = 1 then 2 else 1) := by
    decide
  exact key a ((dupGraph_reaches_iff a).1 ha)

end Graph

namespace Dataflow

open NullGuard.Graph

/-- The solver ranks the entry, the first arm and the exit, and visits each once. -/
theorem solve_dupGraph : Id.run (solve dupGraph orDomain (fun _ x => pure x) true 4) =
    .ok { order := #[0, 2, 1], ordinals := #[0, 2, 1].map dupGraph.ordinal, exitRank := some 2,
          ins := #[some true, some true, some true], outs := #[some true, some true, some true],
          iterations := 3 } := rfl

/-- On a graph that passes `validate`, with a lawful domain, the solver returns without facts for
a reachable block, so its answer is not the least solution. -/
theorem solve_skips_repeated_ordinal :
    dupGraph.validate "M" = .ok () ∧ orDomain.Lawful ∧ dupGraph.Reaches dupGraph.entry 3 ∧
      ∃ sol : Solution Bool, Id.run (solve dupGraph orDomain (fun _ x => pure x) true 4) = .ok sol ∧
        sol.inAt 3 = none ∧ sol.outAt 3 = none ∧
        ¬ sol.IsLeastSolution dupGraph orDomain (fun _ x => x) true := by
  have h3 : dupGraph.Reaches dupGraph.entry 3 := (dupGraph_reaches_iff 3).2 (by simp)
  refine ⟨dupGraph_validate _, orDomain_lawful, h3, _, solve_dupGraph, rfl, rfl, fun hleast => ?_⟩
  -- a least solution has facts on every reachable block
  have hsome := (hleast.inAt_isSome 3).2 h3
  exact absurd hsome (by decide)

/-- On a graph that passes `validate` and has no cycle, with a budget of the four reachable
blocks, the solver makes three visits. -/
theorem solve_visits_fewer_than_reachable :
    dupGraph.validate "M" = .ok () ∧ dupGraph.AcyclicFromEntry ∧
      (∀ b, dupGraph.Reaches dupGraph.entry b ↔ b ∈ [0, 2, 3, 1]) ∧
      ∃ sol : Solution Bool, Id.run (solve dupGraph orDomain (fun _ x => pure x) true 4) = .ok sol ∧
        sol.iterations = 3 ∧ ¬ OnePass dupGraph orDomain true 4 := by
  refine ⟨dupGraph_validate _, dupGraph_acyclic, dupGraph_reaches_iff, _, solve_dupGraph, rfl, fun h => ?_⟩
  -- a single pass would list every reachable block, the second arm included
  have hmem := (h.mem_order 3).2 ((dupGraph_reaches_iff 3).2 (by simp))
  rw [dupGraph_reversePostorder] at hmem
  exact absurd hmem (by decide)

end Dataflow

end NullGuard
