import NullGuard.Proofs.Lockstep
import NullGuard.Proofs.Serving
import NullGuard.Proofs.Cellwise

/-!
# Validation by an unhandled throw acts at the exit only

When guarding by an unhandled throw counts as validation and the graph has a block that throws
out of the procedure, the transfer of an exit block ends by validating the parameters that are
non-null at the normal exit but may be null at an unhandled throw (`Procedure.reconcile`).
Nothing else in the analysis reads the option. Where no edge leaves an exit block, the output of
an exit block feeds no input and queues no block, so the two analyses of a body visit the same
blocks with the same inputs and differ only in the outputs of exit blocks.

* `Graph.NoEdgeLeavesExit`: no edge of the graph leaves a block with the exit role; on a graph
  that passes its check, a reachable exit block then has no successor and precedes no block;
* `Dataflow.solve_adjust`: a solve whose transfer is another's followed by a map at blocks with
  no successor that precede no block is the other solve with its outputs at those blocks mapped;
* `Analysis.analyzeBody_throwPolicy`: a body analysed with the option is the body analysed
  without, its outputs at exit blocks reconciled, whatever its summary requests answer;
* `Analysis.analyze_lockstep`, `Analysis.runMethods_throwPolicy`: on a program where no edge
  leaves an exit block, requests in sessions whose stored outcomes are so reconciled run in
  lockstep with requests without the option, so that no procedure reports a different hazard,
  callers included.
* `Analysis.throwPolicy_changes_exit_only` gathers these: the same session and hazards for one
  body, its dataflows agreeing but at exit blocks, and the same reports for every sequence of
  requests.
-/

namespace NullGuard

/-! ### Graphs whose exit blocks have no outgoing edge -/

namespace Graph

/-- No edge of the graph leaves a block with the exit role. -/
def NoEdgeLeavesExit (g : Graph) : Prop := ∀ e ∈ g.edges, (g.block (g.link e).src).role ≠ .exit

instance (g : Graph) : Decidable g.NoEdgeLeavesExit :=
  inferInstanceAs (Decidable (∀ e ∈ g.edges, (g.block (g.link e).src).role ≠ .exit))

variable {g : Graph} {subject : String}

/-- A block that lists no dangling edge lists only registered edges, leaving or entering it. -/
theorem danglingOf_eq_none {b : BlockId} (h : g.danglingOf b = none) :
    (∀ e ∈ (g.block b).succs, (g.link e).src = b ∧ e ∈ g.edges) ∧
      ∀ e ∈ (g.block b).preds, (g.link e).dst = b ∧ e ∈ g.edges := by
  unfold danglingOf at h
  by_cases hs : (g.block b).succs.any (fun e => (g.link e).src != b || !g.edges.contains e) = true
  · rw [if_pos hs] at h
    cases h
  · by_cases hp : (g.block b).preds.any (fun e => (g.link e).dst != b || !g.edges.contains e) = true
    · rw [if_neg hs, if_pos hp] at h
      cases h
    · simp only [List.any_eq_true, Bool.or_eq_true, not_exists, not_and] at hs hp
      exact ⟨fun e he => by simpa using hs e he, fun e he => by simpa using hp e he⟩

/-- What a graph that passes its check guarantees: the entry is one of its blocks, its edges
join its blocks, and none of its blocks lists a dangling edge. -/
theorem validate_ok (h : g.validate subject = .ok ()) :
    g.entry ∈ g.members ∧ (∀ e ∈ g.edges, (g.link e).src ∈ g.members ∧ (g.link e).dst ∈ g.members) ∧
      ∀ b ∈ g.members, g.danglingOf b = none := by
  unfold validate at h
  split at h
  · cases h
  · rename_i hends
    split at h
    · cases h
    · rename_i hfind
      split at h
      · cases h
      · rename_i hsome
        simp only [Bool.and_eq_true, List.contains_iff_mem, Bool.not_eq_true', Bool.not_eq_false] at hends
        refine ⟨hends.1, fun e he => ?_, fun b hb => ?_⟩
        · have := List.find?_eq_none.mp hfind e he
          simpa using this
        · exact List.findSome?_eq_none_iff.mp hsome b hb

/-- On a graph that passes its check, every block reachable from the entry is one of its blocks. -/
theorem mem_members_of_reaches (h : g.validate subject = .ok ()) {b : BlockId} (hb : g.Reaches g.entry b) :
    b ∈ g.members := by
  obtain ⟨hentry, hedges, hdangling⟩ := validate_ok h
  refine Reaches.closed hb hentry fun x hx y hy => ?_
  obtain ⟨e, he, rfl⟩ := List.mem_map.mp hy
  exact (hedges e ((danglingOf_eq_none (hdangling x hx)).1 e he).2).2

variable (h : g.validate subject = .ok ()) (hx : g.NoEdgeLeavesExit)
include h hx

/-- A reachable exit block has no successor. -/
theorem succBlocks_eq_nil_of_exit {b : BlockId} (hb : g.Reaches g.entry b) (hrole : (g.block b).role = .exit) :
    g.succBlocks b = [] := by
  have hsuccs := (danglingOf_eq_none ((validate_ok h).2.2 b (mem_members_of_reaches h hb))).1
  cases hs : (g.block b).succs with
  | nil => simp [succBlocks, hs]
  | cons e es =>
    obtain ⟨hsrc, he⟩ := hsuccs e (by simp [hs])
    exact absurd (hsrc ▸ hrole) (hx e he)

/-- No predecessor of a reachable block is an exit block. -/
theorem role_ne_exit_of_mem_predBlocks {b p : BlockId} (hb : g.Reaches g.entry b) (hp : p ∈ g.predBlocks b) :
    (g.block p).role ≠ .exit := by
  have hpreds := (danglingOf_eq_none ((validate_ok h).2.2 b (mem_members_of_reaches h hb))).2
  obtain ⟨e, he, rfl⟩ := List.mem_map.mp hp
  exact hx e (hpreds e he).2

end Graph

/-! ### Solves whose transfers differ at sinks -/

namespace Dataflow

variable {L : Type}

/-- The state with the output of each rank sent through the map of its block. -/
def Progress.adjust (g : Graph) (order : Array BlockId) (R : BlockId → L → L) (st : Progress L) :
    Progress L :=
  { st with outs := st.outs.mapIdx fun r => Option.map (R (blockAt g order r)) }

/-- The answer with the output of each rank sent through the map of its block. -/
def Solution.adjust (g : Graph) (R : BlockId → L → L) (sol : Solution L) : Solution L :=
  { sol with outs := sol.outs.mapIdx fun r => Option.map (R (blockAt g sol.order r)) }

variable {g : Graph} {d : Domain L} {seed : L} {order : Array BlockId} {R : BlockId → L → L}

theorem blockAt_mem (hentry : g.entry ∈ order) (r : Nat) : blockAt g order r ∈ order := by
  unfold blockAt
  cases hr : order[r]? with
  | none => exact hentry
  | some b => exact Array.mem_of_getElem? hr

namespace Progress

variable {st : Progress L}

theorem outAt_adjust (r : Nat) :
    (st.adjust g order R).outAt r = (st.outAt r).map (R (blockAt g order r)) := by
  unfold outAt adjust
  rw [Array.getElem?_mapIdx]
  cases st.outs[r]? <;> rfl

/-- The output of a block of the order, with outputs adjusted, is its output sent through its map. -/
theorem outOf_adjust {p : BlockId} {pr : Nat} (hp : rankIn order p = some pr) :
    (st.adjust g order R).outOf order p = (st.outOf order p).map (R p) := by
  unfold outOf
  rw [hp, Option.bind_some, Option.bind_some, outAt_adjust, blockAt_of_getElem? (getElem?_of_rankIn hp)]

/-- Adjusting outputs where the map does nothing leaves every input alone. -/
theorem input_adjust {r : Nat} (hpred : ∀ p ∈ g.predBlocks (blockAt g order r), R p = id) :
    (st.adjust g order R).input g d seed order r = st.input g d seed order r := by
  unfold input
  rw [incoming_eq, incoming_eq]
  congr 2
  refine List.filterMap_congr fun p hp => ?_
  cases hpr : rankIn order p with
  | none => simp [outOf, hpr]
  | some pr => rw [outOf_adjust hpr, hpred p hp, Option.map_id_apply]

theorem changed_adjust {r : Nat} {out : L} (hid : R (blockAt g order r) = id) :
    (st.adjust g order R).changed d r out = st.changed d r out := by
  have hout : (st.adjust g order R).outAt r = st.outAt r := by
    rw [outAt_adjust, hid, Option.map_id_apply]
  unfold changed
  -- `changed` reads the stored output directly, which is `outAt` unfolded
  rw [show ((st.adjust g order R).outs[r]?).join = (st.outs[r]?).join from hout]

variable {f₁ f₂ : BlockId → L → L}

/-- One visit: with a transfer that is another followed by a map which does nothing at the
predecessors of the block and is only applied at a block with no successor, a visit of the
adjusted state is the adjusted visit. -/
theorem visit_adjust {r : Nat} {rest : List Nat} (hf : ∀ b x, f₁ b x = R b (f₂ b x))
    (hsink : R (blockAt g order r) = id ∨ g.succBlocks (blockAt g order r) = [])
    (hpred : ∀ p ∈ g.predBlocks (blockAt g order r), R p = id) :
    (st.adjust g order R).visit g d f₁ seed order r rest = (st.visit g d f₂ seed order r rest).adjust g order R := by
  unfold visit
  rw [input_adjust hpred, hf]
  generalize st.input g d seed order r = x
  generalize f₂ (blockAt g order r) x = out
  -- the output of an adjusted block queues nothing; elsewhere change is judged alike
  have hwork : (if (st.adjust g order R).changed d r (R (blockAt g order r) out) = true then
        requeue order (g.succBlocks (blockAt g order r)) rest else rest) =
      (if st.changed d r out = true then requeue order (g.succBlocks (blockAt g order r)) rest else rest) := by
    rcases hsink with hid | hnil
    · rw [hid, changed_adjust hid, id]
    · simp [hnil, requeue]
  unfold advance adjust
  congr 1
  refine Array.ext_getElem? fun i => ?_
  simp only [Array.set!_eq_setIfInBounds, Array.getElem?_setIfInBounds, Array.getElem?_mapIdx,
    Array.size_mapIdx]
  by_cases hi : r = i
  · subst hi
    by_cases hr : r < st.outs.size <;> simp [hr]
  · rw [if_neg hi, if_neg hi]

end Progress

section Sinks

variable {f₁ f₂ : BlockId → L → L} (hf : ∀ b x, f₁ b x = R b (f₂ b x)) (hentry : g.entry ∈ order)
  (hsink : ∀ b ∈ order, R b = id ∨ g.succBlocks b = []) (hpred : ∀ b ∈ order, ∀ p ∈ g.predBlocks b, R p = id)
include hf hentry hsink hpred

theorem run_adjust : ∀ (fuel : Nat) (st : Progress L),
    Id.run (run g d (fun b x => pure (f₁ b x)) seed order fuel (st.adjust g order R)) =
      (Id.run (run g d (fun b x => pure (f₂ b x)) seed order fuel st)).map (Progress.adjust g order R)
  | fuel, st => by
    cases hw : st.work with
    | nil =>
      rw [run_nil g d _ seed order fuel (st.adjust g order R) hw, run_nil g d _ seed order fuel st hw]
      rfl
    | cons r rest =>
      cases fuel with
      | zero =>
        rw [run_zero g d _ seed order (st.adjust g order R) hw, run_zero g d _ seed order st hw]
        rfl
      | succ fuel =>
        have hb := blockAt_mem hentry r
        rw [run_pure_cons g d f₁ seed order fuel (st.adjust g order R) hw,
          run_pure_cons g d f₂ seed order fuel st hw,
          Progress.visit_adjust hf (hsink _ hb) (hpred _ hb), run_adjust fuel]

theorem trace_adjust : ∀ (fuel : Nat) (st : Progress L),
    trace g d f₁ seed order fuel (st.adjust g order R) = trace g d f₂ seed order fuel st
  | 0, _ => rfl
  | fuel + 1, st => by
    cases hw : st.work with
    | nil =>
      rw [trace_nil g d f₁ seed order _ (st.adjust g order R) hw, trace_nil g d f₂ seed order _ st hw]
    | cons r rest =>
      have hb := blockAt_mem hentry r
      rw [trace_cons g d f₁ seed order fuel (st.adjust g order R) hw, trace_cons g d f₂ seed order fuel st hw,
        Progress.visit_adjust hf (hsink _ hb) (hpred _ hb), trace_adjust fuel,
        Progress.input_adjust (hpred _ hb)]

end Sinks

omit [Domain L] in
theorem adjust_start (n : Nat) : (Progress.start n : Progress L).adjust g order R = Progress.start n := by
  unfold Progress.adjust Progress.start
  simp only [Progress.mk.injEq, true_and, and_true]
  refine Array.ext_getElem? fun i => ?_
  rw [Array.getElem?_mapIdx, Array.getElem?_replicate]
  split <;> rfl

private theorem entry_mem_reversePostorder : g.entry ∈ g.reversePostorder.toArray :=
  Array.mem_of_getElem? (ranking_reversePostorder g).entry

private theorem reach_of_mem {b : BlockId} (hb : b ∈ g.reversePostorder.toArray) : g.Reaches g.entry b :=
  Graph.reaches_of_mem_reversePostorder (by simpa using hb)

section Solve

variable {f₁ f₂ : BlockId → L → L} {budget : Nat} (hf : ∀ b x, f₁ b x = R b (f₂ b x))
  (hsink : ∀ b, g.Reaches g.entry b → R b = id ∨ g.succBlocks b = [])
  (hpred : ∀ b, g.Reaches g.entry b → ∀ p ∈ g.predBlocks b, R p = id)
include hf hsink hpred

/-- A solve whose transfer is another followed by a map that is only applied at reachable
blocks with no successor, and that does nothing at the predecessors of reachable blocks, visits
as the other does. -/
theorem solveTrace_adjust : solveTrace g d f₁ seed budget = solveTrace g d f₂ seed budget := by
  have h : trace g d f₁ seed g.reversePostorder.toArray budget
      ((Progress.start g.reversePostorder.toArray.size).adjust g g.reversePostorder.toArray R) =
      trace g d f₂ seed g.reversePostorder.toArray budget (Progress.start g.reversePostorder.toArray.size) :=
    trace_adjust hf entry_mem_reversePostorder (fun b hb => hsink b (reach_of_mem hb))
      (fun b hb => hpred b (reach_of_mem hb)) budget _
  rwa [adjust_start] at h

/-- and answers as the other, with the outputs of those blocks sent through the map. -/
theorem solve_adjust :
    Id.run (solve g d (fun b x => pure (f₁ b x)) seed budget) =
      (Id.run (solve g d (fun b x => pure (f₂ b x)) seed budget)).map (Solution.adjust g R) := by
  have h : Id.run (run g d (fun b x => pure (f₁ b x)) seed g.reversePostorder.toArray budget
      ((Progress.start g.reversePostorder.toArray.size).adjust g g.reversePostorder.toArray R)) =
      (Id.run (run g d (fun b x => pure (f₂ b x)) seed g.reversePostorder.toArray budget
        (Progress.start g.reversePostorder.toArray.size))).map (Progress.adjust g g.reversePostorder.toArray R) :=
    run_adjust hf entry_mem_reversePostorder (fun b hb => hsink b (reach_of_mem hb))
      (fun b hb => hpred b (reach_of_mem hb)) budget _
  rw [adjust_start] at h
  rw [solve_pure_eq, solve_pure_eq, h]
  cases Id.run (run g d (fun b x => pure (f₂ b x)) seed g.reversePostorder.toArray budget
    (Progress.start g.reversePostorder.toArray.size)) <;> rfl

end Solve

namespace Solution

variable (sol : Solution L)

@[simp] theorem iterations_adjust : (sol.adjust g R).iterations = sol.iterations := rfl

@[simp] theorem inAt_adjust (b : BlockId) : (sol.adjust g R).inAt b = sol.inAt b := rfl

theorem outAt_adjust (b : BlockId) : (sol.adjust g R).outAt b = (sol.outAt b).map (R b) := by
  unfold outAt adjust
  cases hr : rankIn sol.order b with
  | none => rfl
  | some r =>
    simp only [Option.bind_some, Array.getElem?_mapIdx, blockAt_of_getElem? (getElem?_of_rankIn hr)]
    cases sol.outs[r]? with
    | none => rfl
    | some o => cases o <;> rfl

end Solution

end Dataflow

/-! ### The transfer with and without the option -/

namespace Procedure

variable (v : Procedure)

/-- What the transfer of a block does last: at an exit block of a procedure that reconciles,
validate the parameters guarded by an unhandled throw. -/
def closeBlock (b : BlockId) (s : AnalysisState) : AnalysisState :=
  if (v.graph.block b).role == .exit && v.reconciles then v.reconcile s else s

theorem flow_eq_closeBlock (b : BlockId) (s : AnalysisState) :
    v.flow b s = v.closeBlock b ((v.steps b).foldl v.visitFlow s) := rfl

theorem closeBlock_of_ne_exit {b : BlockId} (hb : (v.graph.block b).role ≠ .exit) : v.closeBlock b = id := by
  funext s
  simp [closeBlock, hb]

theorem closeBlock_of_not_reconciles (h : v.reconciles = false) (b : BlockId) : v.closeBlock b = id := by
  funext s
  simp [closeBlock, h]

end Procedure

namespace Analysis

section Policy

variable (facts : Facts) (o : Options) (g : Graph)

/-- The procedure of a graph analysed with guarding by an unhandled throw counted as validation
(`true`) or not. -/
abbrev policyProcedure (b : Bool) : Procedure :=
  Env.procedure ⟨facts, { o with validatedViaUnhandledThrow := b }⟩ g

/-- With the option, the pure transfer of a block is the one without, then reconciled at an
exit block. -/
theorem flow_throwPolicy (b : BlockId) (s : AnalysisState) :
    (policyProcedure facts o g true).flow b s =
      (policyProcedure facts o g true).closeBlock b ((policyProcedure facts o g false).flow b s) := by
  rw [Procedure.flow_eq_closeBlock, Procedure.flow_eq_closeBlock (policyProcedure facts o g false),
    Procedure.closeBlock_of_not_reconciles (policyProcedure facts o g false) (by simp [Env.procedure, Procedure.new])]
  rfl

/-- The option changes what the transfer returns and nothing of what it does. -/
theorem transfer_effects_throwPolicy {m : Type → Type} [Monad m] [LawfulMonad m]
    (lookup : Option (MethodId → m (Option UsageMap))) (b : BlockId) (s : AnalysisState) :
    (fun _ => ()) <$> (policyProcedure facts o g true).transfer lookup b s =
      (fun _ => ()) <$> (policyProcedure facts o g false).transfer lookup b s := by
  unfold Procedure.transfer
  simp only [map_bind, map_pure]
  rfl

variable {g} {subject : String} (hv : g.validate subject = .ok ()) (hx : g.NoEdgeLeavesExit)
include hv hx

/-- The reconciliation is only applied at reachable blocks with no successor. -/
theorem closeBlock_sink {b : BlockId} (hb : g.Reaches g.entry b) :
    (policyProcedure facts o g true).closeBlock b = id ∨ g.succBlocks b = [] := by
  by_cases hrole : (g.block b).role = .exit
  · exact .inr (Graph.succBlocks_eq_nil_of_exit hv hx hb hrole)
  · exact .inl (Procedure.closeBlock_of_ne_exit _ hrole)

/-- and never at a predecessor of a reachable block. -/
theorem closeBlock_pred {b p : BlockId} (hb : g.Reaches g.entry b) (hp : p ∈ g.predBlocks b) :
    (policyProcedure facts o g true).closeBlock p = id :=
  Procedure.closeBlock_of_ne_exit _ (Graph.role_ne_exit_of_mem_predBlocks hv hx hb hp)

/-- A solve with the option performs what the solve without performs, and answers what it
answers with the outputs of exit blocks reconciled. -/
theorem solve_throwPolicy {m : Type → Type} [Monad m] [LawfulMonad m]
    (lookup : Option (MethodId → m (Option UsageMap))) (budget : Nat) :
    Dataflow.solve g (policyProcedure facts o g true).domain ((policyProcedure facts o g true).transfer lookup)
        (policyProcedure facts o g true).initialState budget =
      Except.map (Dataflow.Solution.adjust g (policyProcedure facts o g true).closeBlock) <$>
        Dataflow.solve g (policyProcedure facts o g false).domain
          ((policyProcedure facts o g false).transfer lookup) (policyProcedure facts o g false).initialState budget := by
  have hf := flow_throwPolicy facts o g
  have hsink := fun b hb => closeBlock_sink facts o hv hx (b := b) hb
  have hpred := fun b hb p hp => closeBlock_pred facts o hv hx (b := b) (p := p) hb hp
  rw [Dataflow.solve_factor _ ((policyProcedure facts o g true).transfer_returns lookup),
    Dataflow.solve_factor _ ((policyProcedure facts o g false).transfer_returns lookup),
    Dataflow.solveTrace_adjust hf hsink hpred, Dataflow.solve_adjust hf hsink hpred, map_bind]
  simp only [transfer_effects_throwPolicy, map_pure]
  rfl

end Policy

/-- The outcome of a body analysed with the option, from the one without: the outputs of exit
blocks in its dataflow reconciled. -/
def reconcileOutcome (facts : Facts) (o : Options) (r : Outcome) : Outcome :=
  { r with dataflow := r.dataflow.map fun sol =>
      match facts.graph? r.method with
      | some g => sol.adjust g (policyProcedure facts o g true).closeBlock
      | none => sol }

@[simp] theorem usages_reconcileOutcome (facts : Facts) (o : Options) (r : Outcome) :
    (reconcileOutcome facts o r).usages = r.usages := rfl

@[simp] theorem complete_reconcileOutcome (facts : Facts) (o : Options) (r : Outcome) :
    (reconcileOutcome facts o r).complete = r.complete := rfl

/-- The body of a procedure whose graph has no edge leaving an exit block, analysed with the
option, is the body analysed without, its outcome reconciled at the exit, whatever its summary
requests do. -/
theorem analyzeBody_throwPolicy (facts : Facts) (o : Options) (f : MethodId → SessionM (Option UsageMap))
    (p : MethodId) (hx : ∀ g, facts.graph? p = some g → g.NoEdgeLeavesExit) :
    analyzeBody ⟨facts, { o with validatedViaUnhandledThrow := true }⟩ f p =
      reconcileOutcome facts o <$> analyzeBody ⟨facts, { o with validatedViaUnhandledThrow := false }⟩ f p := by
  unfold analyzeBody Env.prog
  dsimp only
  cases hg : facts.graph? p with
  | none => rfl
  | some g =>
    simp only
    cases hv : g.validate (facts.program.methodRepr p) with
    | error e => rfl
    | ok u =>
      cases u
      -- the two runs are allowed the same visits, the policy not entering the allowance
      have hsolve := solve_throwPolicy facts o hv (hx g hg) (m := SessionM)
        (if o.interprocedural = true then some f else none)
        (Dataflow.allowance o.maxIterations.toNat o.maxSeconds (facts.clock p))
      simp only [policyProcedure, Env.procedure] at hsolve
      dsimp only [Dataflow.solveTimed] at hsolve ⊢
      rw [hsolve, StateT.run_map, StateT.run_map, bind_map_left, bind_map_left, StateT.run_map, bind_map_left,
        map_bind]
      congr 1
      funext ⟨res, log⟩
      cases res <;> simp [reconcileOutcome, hg, Except.map, Except.mapError, policyProcedure, Env.procedure]

/-! ### What the reconciled outcome says -/

/-- `sol₁` is `sol₀` with the outputs of exit blocks reconciled as the procedure `v` reconciles
them: the same number of visits, the same input at every block, the same output at every block
but an exit block, and at an exit block, when the graph has a block that throws out of the
procedure, the output of `sol₀` with the hazardous locations of each trackable parameter that
is non-null at the normal exit and may be null at an unhandled throw validated. -/
structure SolutionReconciled (v : Procedure) (sol₁ sol₀ : Dataflow.Solution AnalysisState) : Prop where
  iterations : sol₁.iterations = sol₀.iterations
  inAt : ∀ b, sol₁.inAt b = sol₀.inAt b
  outAt : ∀ b, (v.graph.block b).role ≠ .exit → sol₁.outAt b = sol₀.outAt b
  exit : ∀ b, (v.graph.block b).role = .exit → sol₁.outAt b = (sol₀.outAt b).map fun s =>
    if v.graph.unhandledThrowBlocks = [] then s
    else v.trackableParameters.foldl (fun s p =>
      if v.facts.nulls.atExit p = .notNull ∧ v.facts.nulls.atThrows p = .maybeNull then
        s.setAll ((v.paramLocations p).filter s.isHazardous) .validated
      else s) s

/-- The outcome `r₁` of a body analysed with the option against the outcome `r₀` without: the
same procedure, hazards and completeness, and dataflows both absent or reconciled at the exit. -/
structure OutcomeReconciled (v : Procedure) (r₁ r₀ : Outcome) : Prop where
  method : r₁.method = r₀.method
  usages : r₁.usages = r₀.usages
  complete : r₁.complete = r₀.complete
  dataflow : Option.Rel (SolutionReconciled v) r₁.dataflow r₀.dataflow

section Reconciled

variable (facts : Facts) (o : Options) (g : Graph)

/-- At an exit block, the procedure with the option reconciles exactly when the graph has a
block that throws out of the procedure. -/
theorem closeBlock_exit {b : BlockId} (hb : (g.block b).role = .exit) (s : AnalysisState) :
    (policyProcedure facts o g true).closeBlock b s =
      if g.unhandledThrowBlocks = [] then s else (policyProcedure facts o g true).reconcile s := by
  by_cases hnil : g.unhandledThrowBlocks = []
  · simp [Procedure.closeBlock, Env.procedure, Procedure.new, hnil]
  · have hne : g.unhandledThrowBlocks.isEmpty = false := by simpa using hnil
    simp [Procedure.closeBlock, Env.procedure, Procedure.new, hb, hne, hnil]

theorem solutionReconciled_adjust (sol : Dataflow.Solution AnalysisState) :
    SolutionReconciled (policyProcedure facts o g true) (sol.adjust g (policyProcedure facts o g true).closeBlock) sol where
  iterations := rfl
  inAt _ := rfl
  outAt b hb := by
    rw [Dataflow.Solution.outAt_adjust, Procedure.closeBlock_of_ne_exit _ hb, Option.map_id_apply]
  exit b hb := by
    rw [Dataflow.Solution.outAt_adjust]
    congr 1
    funext s
    rw [closeBlock_exit facts o g hb, Procedure.reconcile_eq]
    rfl

theorem reconcileOutcome_reconciled {r : Outcome} (hg : facts.graph? r.method = some g) :
    OutcomeReconciled (policyProcedure facts o g true) (reconcileOutcome facts o r) r := by
  refine ⟨rfl, rfl, rfl, ?_⟩
  unfold reconcileOutcome
  cases r.dataflow with
  | none => exact .none
  | some sol =>
    dsimp only [Option.map_some]
    rw [hg]
    exact .some (solutionReconciled_adjust facts o g sol)

end Reconciled

end Analysis

/-! ### Sessions whose stored outcomes are reconciled -/

/-- A computed value sent through `φ`, kept or not as it was. -/
def Computed.map {α β : Type} (φ : α → β) : Computed α → Computed β
  | .keep v => .keep (φ v)
  | .transient v => .transient (φ v)

namespace SummaryCache

variable {κ α β : Type} [DecidableEq κ]

/-- The cache with every stored value sent through `φ`. -/
def map (φ : α → β) (c : SummaryCache κ α) : SummaryCache κ β :=
  { store := c.store.map fun e => (e.1, φ e.2), claims := c.claims, hits := c.hits, misses := c.misses,
    cycleDefaults := c.cycleDefaults, transients := c.transients }

private theorem lookup_map_snd (φ : α → β) (k : κ) :
    ∀ l : List (κ × α), (l.map fun e => (e.1, φ e.2)).lookup k = (l.lookup k).map φ
  | [] => rfl
  | (j, w) :: l => by
    by_cases hk : k = j
    · simp [hk]
    · have hne : (k == j) = false := by simpa using hk
      simp [List.lookup_cons, hne, lookup_map_snd φ k l]

theorem get?_map (φ : α → β) (c : SummaryCache κ α) (k : κ) : (c.map φ).get? k = (c.get? k).map φ :=
  lookup_map_snd φ k c.store

omit [DecidableEq κ] in
@[simp] theorem claims_map (φ : α → β) (c : SummaryCache κ α) : (c.map φ).claims = c.claims := rfl

/-- Settling commutes with sending the stored values through `φ`. -/
theorem settle_map (φ : α → β) (c : SummaryCache κ α) (k : κ) (r : Computed α) :
    (c.settle k r).map φ = (c.map φ).settle k (r.map φ) := by
  cases r with
  | keep v => simp [settle, Computed.map, map, release]
  | transient v => rfl

end SummaryCache

/-- The session with every stored outcome sent through `φ`. -/
def Session.mapOutcomes (φ : Outcome → Outcome) (s : Session) : Session :=
  { s with cache := s.cache.map (Option.map φ) }

namespace Session

variable (φ : Outcome → Outcome)

@[simp] theorem chain_mapOutcomes (s : Session) : (s.mapOutcomes φ).chain = s.chain := rfl

@[simp] theorem claims_mapOutcomes (s : Session) : (s.mapOutcomes φ).cache.claims = s.cache.claims := rfl

theorem get?_mapOutcomes (s : Session) (X : MethodId) :
    (s.mapOutcomes φ).cache.get? X = (s.cache.get? X).map (Option.map φ) :=
  SummaryCache.get?_map _ s.cache X

theorem opened_mapOutcomes (s : Session) (X : MethodId) : (s.mapOutcomes φ).opened X = (s.opened X).mapOutcomes φ :=
  rfl

theorem closed_mapOutcomes (t : Session) (X : MethodId) (r : Outcome) :
    (t.mapOutcomes φ).closed X (φ r) = (t.closed X r).mapOutcomes φ := by
  unfold closed mapOutcomes
  simp only [mk.injEq, and_true]
  rw [SummaryCache.settle_map]
  split <;> rfl

end Session

namespace Analysis

section Sessions

variable (facts : Facts) (o : Options)

/-- A session of the analysis with the option against one without: the same, but for the stored
outcomes, which are reconciled at the exit. -/
def ReconciledSession (s t : Session) : Prop := s = t.mapOutcomes (reconcileOutcome facts o)

/-- A summary request with the option runs in lockstep with one without, when the requests for
outcomes they pass on do. -/
theorem summaryOf_lockstep {resolve₁ resolve₀ : MethodId → SessionM (Option Outcome)}
    (h : ∀ c, Lockstep (ReconciledSession facts o) (fun a b => a = b.map (reconcileOutcome facts o))
      (resolve₁ c) (resolve₀ c)) (c : MethodId) :
    Lockstep (ReconciledSession facts o) Eq
      (summaryOf ⟨facts, { o with validatedViaUnhandledThrow := true }⟩ resolve₁ c)
      (summaryOf ⟨facts, { o with validatedViaUnhandledThrow := false }⟩ resolve₀ c) := by
  rintro s t rfl
  -- the option is not read by requests: both ask the same questions of the same session shape
  let t₁ := t.mapOutcomes (reconcileOutcome facts o)
  have hsum : isSummarizable ⟨facts, { o with validatedViaUnhandledThrow := true }⟩ c =
      isSummarizable ⟨facts, { o with validatedViaUnhandledThrow := false }⟩ c := rfl
  cases hs : isSummarizable ⟨facts, { o with validatedViaUnhandledThrow := false }⟩ c with
  | false =>
    rw [run_summaryOf_of_not _ _ c t₁ (hsum.trans hs), run_summaryOf_of_not _ _ c t hs]
    exact ⟨rfl, rfl⟩
  | true =>
    by_cases hlong : (t.chain.length : Int) > o.maxCallChain
    · by_cases hstored : ∃ r, t.cache.get? c = some (some r)
      · -- a stored outcome answers, reconciled in the first run
        obtain ⟨r, hr⟩ := hstored
        rw [run_summaryOf_stored _ _ c t₁ (hsum.trans hs) hlong (r := reconcileOutcome facts o r)
            (by simp [t₁, Session.get?_mapOutcomes, hr]),
          run_summaryOf_stored _ _ c t hs hlong hr]
        exact ⟨rfl, rfl⟩
      · -- otherwise the chain is cut off in both runs
        have hnot : ∀ r, t.cache.get? c ≠ some (some r) := fun r hr => hstored ⟨r, hr⟩
        have hnot₁ : ∀ r, t₁.cache.get? c ≠ some (some r) := by
          intro r hr
          rw [Session.get?_mapOutcomes] at hr
          obtain ⟨v, hv, hvr⟩ := Option.map_eq_some_iff.mp hr
          obtain ⟨r', rfl, -⟩ := Option.map_eq_some_iff.mp hvr
          exact hnot r' hv
        rw [run_summaryOf_cut _ _ c t₁ (hsum.trans hs) hlong hnot₁, run_summaryOf_cut _ _ c t hs hlong hnot]
        exact ⟨rfl, rfl⟩
    · rcases h₀ : (resolve₀ c).run t with ⟨o₀, t₀⟩
      rcases h₁ : (resolve₁ c).run t₁ with ⟨o₁, t₁'⟩
      obtain ⟨ho, ht⟩ := h c t₁ t rfl
      rw [h₀, h₁] at ho ht
      rw [run_summaryOf_resolve _ _ c t₁ (hsum.trans hs) hlong h₁, run_summaryOf_resolve _ _ c t hs hlong h₀]
      subst ho ht
      cases o₀ <;> exact ⟨rfl, rfl⟩

/-- A body analysed with the option, with summary requests in lockstep with those of the body
analysed without, runs in lockstep with it, its outcome reconciled at the exit. -/
theorem analyzeBody_reconciled_lockstep {f₁ f₀ : MethodId → SessionM (Option UsageMap)}
    (hf : ∀ c, Lockstep (ReconciledSession facts o) Eq (f₁ c) (f₀ c)) (p : MethodId)
    (hx : ∀ g, facts.graph? p = some g → g.NoEdgeLeavesExit) :
    Lockstep (ReconciledSession facts o) (fun a b => a = reconcileOutcome facts o b)
      (analyzeBody ⟨facts, { o with validatedViaUnhandledThrow := true }⟩ f₁ p)
      (analyzeBody ⟨facts, { o with validatedViaUnhandledThrow := false }⟩ f₀ p) := by
  rw [analyzeBody_throwPolicy facts o f₁ p hx, ← id_map (analyzeBody _ f₀ p)]
  exact (analyzeBody_lockstep _ hf p).map _ _ fun a b hab => by rw [hab]; rfl

variable (hall : ∀ q g, facts.graph? q = some g → g.NoEdgeLeavesExit)
include hall

/-- On a program where no edge leaves an exit block, a request for an outcome with the option
runs in lockstep with the same request without, its outcome reconciled at the exit. -/
theorem resultOf_lockstep : ∀ (n : Nat) (X : MethodId),
    Lockstep (ReconciledSession facts o) (fun a b => a = b.map (reconcileOutcome facts o))
      (resultOf ⟨facts, { o with validatedViaUnhandledThrow := true }⟩ n X)
      (resultOf ⟨facts, { o with validatedViaUnhandledThrow := false }⟩ n X)
  | 0, _ => Lockstep.pure rfl
  | n + 1, X => by
    rintro s t rfl
    have hbody := analyzeBody_reconciled_lockstep facts o (summaryOf_lockstep facts o (resultOf_lockstep n)) X
      (hall X) ((t.opened X).mapOutcomes (reconcileOutcome facts o)) (t.opened X) rfl
    rw [run_resultOf_succ, run_resultOf_succ, Session.chain_mapOutcomes, Session.get?_mapOutcomes,
      Session.claims_mapOutcomes, Session.opened_mapOutcomes]
    by_cases hX : X ∈ t.chain
    · rw [if_pos hX, if_pos hX]
      exact ⟨rfl, rfl⟩
    · rw [if_neg hX, if_neg hX]
      cases hv : t.cache.get? X with
      | some v => exact ⟨rfl, rfl⟩
      | none =>
        by_cases hcl : X ∈ t.cache.claims
        · rw [if_pos hcl, if_pos hcl]
          exact ⟨rfl, rfl⟩
        · -- the body is analysed in both runs, in lockstep, and closed with related outcomes
          rw [if_neg hcl, if_neg hcl]
          obtain ⟨hr, ht⟩ := hbody
          dsimp only
          rw [hr, ht, Session.closed_mapOutcomes]
          exact ⟨rfl, rfl⟩

/-- and so does a request from outside. -/
theorem analyze_lockstep (p : MethodId) :
    Lockstep (ReconciledSession facts o) (fun a b => a = reconcileOutcome facts o b)
      (analyze ⟨facts, { o with validatedViaUnhandledThrow := true }⟩ p)
      (analyze ⟨facts, { o with validatedViaUnhandledThrow := false }⟩ p) := by
  unfold analyze
  refine (resultOf_lockstep facts o hall _ p).bind fun a b hab => ?_
  subst hab
  cases b with
  | none => exact Lockstep.pure rfl
  | some r => exact Lockstep.pure rfl

/-- A sequence of requests with the option, from a cache whose outcomes are reconciled, gives
the outcomes of the same sequence without, reconciled, and leaves its cache reconciled. -/
theorem runMethods_throwPolicy : ∀ (ps : List MethodId) (c : OutcomeCache),
    runMethods facts { o with validatedViaUnhandledThrow := true } ps (c.map (Option.map (reconcileOutcome facts o))) =
      ((runMethods facts { o with validatedViaUnhandledThrow := false } ps c).1.map fun st =>
          { outcome := reconcileOutcome facts o st.outcome, cache := st.cache.map (Option.map (reconcileOutcome facts o)) },
        (runMethods facts { o with validatedViaUnhandledThrow := false } ps c).2.map (Option.map (reconcileOutcome facts o)))
  | [], _ => rfl
  | p :: ps, c => by
    have hrun := analyze_lockstep facts o hall p (({ cache := c } : Session).mapOutcomes (reconcileOutcome facts o))
      { cache := c } rfl
    rcases h₀ : (analyze ⟨facts, { o with validatedViaUnhandledThrow := false }⟩ p).run { cache := c }
      with ⟨r₀, t₀⟩
    rcases h₁ : (analyze ⟨facts, { o with validatedViaUnhandledThrow := true }⟩ p).run
      (({ cache := c } : Session).mapOutcomes (reconcileOutcome facts o)) with ⟨r₁, t₁⟩
    rw [h₀, h₁] at hrun
    obtain ⟨rfl, rfl⟩ := hrun
    have hs : ({ cache := c.map (Option.map (reconcileOutcome facts o)) } : Session) =
        ({ cache := c } : Session).mapOutcomes (reconcileOutcome facts o) := rfl
    unfold runMethods
    rw [hs, h₁, h₀]
    dsimp only [Session.mapOutcomes]
    rw [runMethods_throwPolicy ps]
    rfl

end Sessions

/-! ### The option acts at the exit only -/

/-- Counting a guard by an unhandled throw as validation changes the analysis at the exit only,
so that every request reports the same hazards with the option as without. -/
theorem throwPolicy_changes_exit_only (facts : Facts) (o : Options) (p : MethodId) (g : Graph)
    (hg : facts.graph? p = some g) (hx : g.NoEdgeLeavesExit) (f : MethodId → SessionM (Option UsageMap))
    (s : Session) :
    ((analyzeBody ⟨facts, { o with validatedViaUnhandledThrow := true }⟩ f p).run s).2 =
        ((analyzeBody ⟨facts, { o with validatedViaUnhandledThrow := false }⟩ f p).run s).2 ∧
      OutcomeReconciled (policyProcedure facts o g true)
        ((analyzeBody ⟨facts, { o with validatedViaUnhandledThrow := true }⟩ f p).run s).1
        ((analyzeBody ⟨facts, { o with validatedViaUnhandledThrow := false }⟩ f p).run s).1 ∧
      ((∀ q g', facts.graph? q = some g' → g'.NoEdgeLeavesExit) → ∀ ps : List MethodId,
        (runMethods facts { o with validatedViaUnhandledThrow := true } ps {}).1.map
            (fun st => (st.outcome.usages, st.outcome.complete)) =
          (runMethods facts { o with validatedViaUnhandledThrow := false } ps {}).1.map
            (fun st => (st.outcome.usages, st.outcome.complete))) := by
  have hbody := analyzeBody_throwPolicy facts o f p fun g' hg' => Option.some.inj (hg.symm.trans hg') ▸ hx
  rw [hbody, StateT.run_map]
  refine ⟨rfl, ?_, fun hall ps => ?_⟩
  · -- the outcome without the option is the body's own, so its graph is `g`
    have hm := (analyzeBody_ofBody ⟨facts, { o with validatedViaUnhandledThrow := false }⟩ f p s).method
    exact reconcileOutcome_reconciled facts o g (by rw [hm]; exact hg)
  · have h := runMethods_throwPolicy facts o hall ps {}
    rw [show ({} : OutcomeCache).map (Option.map (reconcileOutcome facts o)) = {} from rfl] at h
    rw [h, List.map_map]
    rfl

/-- `f`, whose exit has no outgoing edge, analysed with and without the option. -/
theorem throwPolicy_changes_exit_only_readLoop :
    (oneParamFacts.register readLoopGraph).graph? 0 = some readLoopGraph ∧ readLoopGraph.NoEdgeLeavesExit ∧
      ((analyzeBody ⟨oneParamFacts.register readLoopGraph, { validatedViaUnhandledThrow := true }⟩
          (fun _ => pure none) 0).run {}).2 =
        ((analyzeBody ⟨oneParamFacts.register readLoopGraph, { validatedViaUnhandledThrow := false }⟩
          (fun _ => pure none) 0).run {}).2 ∧
      OutcomeReconciled (policyProcedure (oneParamFacts.register readLoopGraph) {} readLoopGraph true)
        ((analyzeBody ⟨oneParamFacts.register readLoopGraph, { validatedViaUnhandledThrow := true }⟩
          (fun _ => pure none) 0).run {}).1
        ((analyzeBody ⟨oneParamFacts.register readLoopGraph, { validatedViaUnhandledThrow := false }⟩
          (fun _ => pure none) 0).run {}).1 ∧
      ((∀ q g', (oneParamFacts.register readLoopGraph).graph? q = some g' → g'.NoEdgeLeavesExit) →
        ∀ ps : List MethodId,
          (runMethods (oneParamFacts.register readLoopGraph) { validatedViaUnhandledThrow := true } ps {}).1.map
              (fun st => (st.outcome.usages, st.outcome.complete)) =
            (runMethods (oneParamFacts.register readLoopGraph) { validatedViaUnhandledThrow := false } ps {}).1.map
              (fun st => (st.outcome.usages, st.outcome.complete))) :=
  ⟨rfl, by decide,
    throwPolicy_changes_exit_only (oneParamFacts.register readLoopGraph) {} 0 readLoopGraph rfl (by decide)
      (fun _ => pure none) {}⟩

end Analysis

end NullGuard
