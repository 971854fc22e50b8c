import NullGuard.Proofs.Hazards
import Mathlib.Algebra.Order.BigOperators.Group.Finset
import Mathlib.Algebra.Order.BigOperators.Group.List
import Mathlib.Algebra.BigOperators.Ring.Finset

/-!
# How many visits a solve makes

A visit pops one rank, and queues the ranks of its block's successors only when the block's
output changes; on a domain of finite height an output changes a bounded number of times. The
visits are therefore paid for by a potential: the length of the worklist, plus for every rank
the successors it may still queue, its block's number of successors times the number of
changes its output has left (`Dataflow.Progress.potential`). Every visit lowers the potential
(`Dataflow.potential_visit`), so a run visits at most as many blocks as the potential of the
state it starts from (`Dataflow.length_trace_le`), and with that much budget it answers
(`Dataflow.run_ok_of_potential_le`).

* `Dataflow.length_solveTrace_le`, `Dataflow.solve_ok_of_le`: when the values a solve meets
  have heights at most `H`, it visits at most `1 + (H + 1) E` blocks, `E` the number of edges
  leaving the blocks it ranks, and answers whenever its budget is that large;
* the states of a procedure rise at most twice at each cell of the entry state
  (`Procedure.factHeight`), so the analysis of a procedure visits at most `1 + (2 K + 1) E`
  blocks, `K` the number of cells of its entry state (`Procedure.visits_within_bound`).
-/

namespace NullGuard

/-- The number of edges leaving the blocks reachable from the entry that reverse post-order
lists: the blocks a solve ranks. -/
def Graph.rankedEdges (g : Graph) : Nat := (g.reversePostorder.map fun b => (g.succBlocks b).length).sum

/-- The ranked blocks are distinct and reachable, so their edges are among those leaving any set
of blocks holding every reachable one. -/
theorem Graph.rankedEdges_le (g : Graph) (S : Finset BlockId) (hS : ∀ b, g.Reaches g.entry b → b ∈ S) :
    g.rankedEdges ≤ ∑ b ∈ S, (g.succBlocks b).length := by
  unfold Graph.rankedEdges
  rw [← List.sum_toFinset _ g.reversePostorder_nodup]
  exact Finset.sum_le_sum_of_subset fun b hb =>
    hS b (Graph.reaches_of_mem_reversePostorder (List.mem_toFinset.mp hb))

namespace Dataflow

variable {L : Type}

/-! ### The length of the worklist -/

theorem length_enqueue_le (r : Nat) : ∀ w : List Nat, (enqueue r w).length ≤ w.length + 1
  | [] => by simp [enqueue]
  | x :: xs => by
    have ih := length_enqueue_le r xs
    unfold enqueue
    split
    · simp
    · split
      · simp
      · simp only [List.length_cons]
        omega

theorem length_requeue_le (order : Array BlockId) :
    ∀ (succs : List BlockId) (rest : List Nat), (requeue order succs rest).length ≤ rest.length + succs.length
  | [], rest => by simp [requeue]
  | s :: succs, rest => by
    have ih := length_requeue_le order succs
    unfold requeue at ih ⊢
    rw [List.foldl_cons]
    cases hs : rankIn order s with
    | none =>
      have := ih rest
      simp only [List.length_cons]
      omega
    | some sr =>
      have := ih (enqueue sr rest)
      have := length_enqueue_le sr rest
      simp only [List.length_cons]
      omega

/-! ### Heights and the potential -/

/-- A height on the values satisfying `Q`: at most `H`, rising with the order, and rising
strictly along a change. -/
structure Height (d : Domain L) (Q : L → Prop) (H : Nat) where
  height : L → Nat
  le_bound : ∀ x, Q x → height x ≤ H
  mono : ∀ x y, Q x → Q y → d.le x y → height x ≤ height y
  strict : ∀ x y, Q x → Q y → d.le x y → d.same y x = false → height x < height y

/-- The values satisfying `Q` hold the seed and the bottom, and are closed under joins and
transfers. -/
structure Closed (d : Domain L) (f : BlockId → L → L) (seed : L) (Q : L → Prop) : Prop where
  seed : Q seed
  bottom : Q d.bottom
  join : ∀ a b, Q a → Q b → Q (d.join a b)
  flow : ∀ b x, Q x → Q (f b x)

/-- Every output found satisfies `Q`. -/
def Progress.OutsSatisfy (Q : L → Prop) (st : Progress L) : Prop :=
  ∀ r y, st.outAt r = some y → Q y

/-- The changes a rank's output has left: `H + 1` before its first visit, `H - h` once its
output has height `h`. -/
def Progress.credit (H : Nat) (height : L → Nat) (st : Progress L) (r : Nat) : Nat :=
  match st.outAt r with
  | none => H + 1
  | some y => H - height y

/-- The visits a state can still pay for: one for each queued rank, and for each rank its
block's successors once per change its output has left. -/
def Progress.potential (g : Graph) (order : Array BlockId) (H : Nat) (height : L → Nat)
    (st : Progress L) : Nat :=
  st.work.length + ∑ r ∈ Finset.range order.size,
    st.credit H height r * (g.succBlocks (blockAt g order r)).length

/-- Lowering one term of a sum by `k` lowers the sum by `k`. -/
private theorem sum_range_add_le {F G : Nat → Nat} {n r k : Nat} (hr : r < n)
    (hother : ∀ i < n, i ≠ r → G i = F i) (hle : G r + k ≤ F r) :
    (∑ i ∈ Finset.range n, G i) + k ≤ ∑ i ∈ Finset.range n, F i := by
  have hmem : r ∈ Finset.range n := Finset.mem_range.mpr hr
  rw [← Finset.add_sum_erase _ G hmem, ← Finset.add_sum_erase _ F hmem]
  have hrest : ∑ i ∈ (Finset.range n).erase r, G i = ∑ i ∈ (Finset.range n).erase r, F i :=
    Finset.sum_congr rfl fun i hi =>
      hother i (Finset.mem_range.mp (Finset.mem_of_mem_erase hi)) (Finset.ne_of_mem_erase hi)
  omega

section Visit

variable {g : Graph} {d : Domain L} {f : BlockId → L → L} {seed : L} {order : Array BlockId}
  {Q : L → Prop} {H : Nat}

theorem Closed.foldl_join (hQ : Closed d f seed Q) :
    ∀ (xs : List L) (a : L), Q a → (∀ x ∈ xs, Q x) → Q (xs.foldl d.join a)
  | [], _, ha, _ => ha
  | x :: xs, a, ha, hxs =>
    hQ.foldl_join xs _ (hQ.join a x ha (hxs x List.mem_cons_self))
      fun y hy => hxs y (List.mem_cons_of_mem _ hy)

theorem Closed.input (hQ : Closed d f seed Q) {st : Progress L} (hst : st.OutsSatisfy Q) (r : Nat) :
    Q (st.input g d seed order r) := by
  unfold Progress.input Domain.joinAll
  refine hQ.foldl_join _ _ hQ.bottom fun x hx => ?_
  rw [Progress.incoming_eq] at hx
  rcases List.mem_append.mp hx with hx | hx
  · split at hx
    · rw [List.mem_singleton.mp hx]
      exact hQ.seed
    · cases hx
  · obtain ⟨p, -, hpx⟩ := List.mem_filterMap.mp hx
    obtain ⟨rp, -, hrp⟩ := Option.bind_eq_some_iff.mp hpx
    exact hst rp x hrp

theorem Progress.OutsSatisfy.visit (hQ : Closed d f seed Q) {st : Progress L} (hst : st.OutsSatisfy Q)
    (r : Nat) (rest : List Nat) : (st.visit g d f seed order r rest).OutsSatisfy Q := by
  intro r' y hy
  unfold Progress.visit at hy
  rcases Progress.outAt_advance_eq_some hy with ⟨-, rfl⟩ | hy
  · exact hQ.flow _ _ (hQ.input hst r)
  · exact hst r' y hy

theorem outsSatisfy_start (n : Nat) : (Progress.start n : Progress L).OutsSatisfy Q :=
  fun r y hy => by simp at hy

/-- The output a rank had is below the output a visit gives it now: it was the transfer of an
input below the current one. -/
theorem Grows.outAt_le (hmono : d.Monotone f) {st : Progress L} (hs : Grows g d f seed order st) {r : Nat}
    {old : L} (hold : st.outAt r = some old) :
    d.le old (f (blockAt g order r) (st.input g d seed order r)) := by
  obtain ⟨x, hx, rfl⟩ := hs.out_eq r old hold
  exact hmono _ _ _ (hs.in_le r x hx)

variable {st : Progress L} {r : Nat} (rest : List Nat) (height : L → Nat)

theorem credit_visit_self (hr : r < st.outs.size) :
    (st.visit g d f seed order r rest).credit H height r =
      H - height (f (blockAt g order r) (st.input g d seed order r)) := by
  unfold Progress.credit Progress.visit
  rw [Progress.outAt_advance hr, if_pos rfl]

theorem credit_visit_ne (hr : r < st.outs.size) {r' : Nat} (h : r' ≠ r) :
    (st.visit g d f seed order r rest).credit H height r' = st.credit H height r' := by
  unfold Progress.credit Progress.visit
  rw [Progress.outAt_advance hr, if_neg h]

variable (hmono : d.Monotone f) (hQ : Closed d f seed Q) (h : Height d Q H)
  (hs : Grows g d f seed order st) (hq : st.OutsSatisfy Q)
include hmono hQ hs hq

/-- A visit that changes its rank's output uses up one of the rank's changes. -/
theorem credit_visit_lt (hr : r < st.outs.size)
    (hc : st.changed d r (f (blockAt g order r) (st.input g d seed order r)) = true) :
    (st.visit g d f seed order r rest).credit H h.height r + 1 ≤ st.credit H h.height r := by
  have hout : Q (f (blockAt g order r) (st.input g d seed order r)) := hQ.flow _ _ (hQ.input hq r)
  have hbound := h.le_bound _ hout
  rw [credit_visit_self rest h.height hr]
  unfold Progress.credit
  cases hold : st.outAt r with
  | none =>
    dsimp only
    omega
  | some old =>
    dsimp only
    -- the new output is above the old one and differs from it, so it is strictly higher
    unfold Progress.changed at hc
    unfold Progress.outAt at hold
    rw [hold, Bool.not_eq_true'] at hc
    have hlt := h.strict _ _ (hq r old hold) hout (hs.outAt_le hmono hold) hc
    omega

/-- A visit that keeps its rank's output uses up none of the rank's changes. -/
theorem credit_visit_le (hr : r < st.outs.size) :
    (st.visit g d f seed order r rest).credit H h.height r ≤ st.credit H h.height r := by
  have hout : Q (f (blockAt g order r) (st.input g d seed order r)) := hQ.flow _ _ (hQ.input hq r)
  rw [credit_visit_self rest h.height hr]
  unfold Progress.credit
  cases hold : st.outAt r with
  | none =>
    dsimp only
    omega
  | some old =>
    dsimp only
    have hle := h.mono _ _ (hq r old hold) hout (hs.outAt_le hmono hold)
    omega

/-- Every visit lowers the potential: a change pays for the successors it queues with one of
its rank's changes, and the popped rank pays for itself. -/
theorem potential_visit (hw : st.work = r :: rest) :
    (st.visit g d f seed order r rest).potential g order H h.height + 1 ≤ st.potential g order H h.height := by
  have hr : r < order.size := hs.work_lt r (by simp [hw])
  have hro : r < st.outs.size := hs.outs_size ▸ hr
  have hother : ∀ i < order.size, i ≠ r →
      (st.visit g d f seed order r rest).credit H h.height i * (g.succBlocks (blockAt g order i)).length =
        st.credit H h.height i * (g.succBlocks (blockAt g order i)).length :=
    fun i _ hi => by rw [credit_visit_ne rest h.height hro hi]
  unfold Progress.potential
  rw [hw, List.length_cons]
  by_cases hc : st.changed d r (f (blockAt g order r) (st.input g d seed order r)) = true
  · have hwork : (st.visit g d f seed order r rest).work =
        requeue order (g.succBlocks (blockAt g order r)) rest := by
      simp [Progress.visit, Progress.advance, hc]
    have hlen := length_requeue_le order (g.succBlocks (blockAt g order r)) rest
    have hcr := credit_visit_lt rest hmono hQ h hs hq hro hc
    have hsum := sum_range_add_le hr hother (by
      rw [← Nat.succ_mul]
      exact Nat.mul_le_mul_right _ hcr)
    rw [hwork]
    omega
  · have hwork : (st.visit g d f seed order r rest).work = rest := by
      simp [Progress.visit, Progress.advance, hc]
    have hsum := sum_range_add_le (k := 0) hr hother
      (Nat.mul_le_mul_right _ (credit_visit_le rest hmono hQ h hs hq hro))
    rw [hwork]
    omega

end Visit

section Run

variable {g : Graph} {d : Domain L} {f : BlockId → L → L} {seed : L} {order : Array BlockId}
  {Q : L → Prop} {H : Nat} (hd : d.Lawful) (hmono : d.Monotone f) (hQ : Closed d f seed Q)
  (h : Height d Q H)
include hd hmono hQ

/-- A run visits at most as many blocks as the potential of the state it starts from. -/
theorem length_trace_le : ∀ (fuel : Nat) (st : Progress L), Grows g d f seed order st → st.OutsSatisfy Q →
    (trace g d f seed order fuel st).length ≤ st.potential g order H h.height
  | 0, _, _, _ => Nat.zero_le _
  | fuel + 1, st, hs, hq => by
    cases hw : st.work with
    | nil =>
      rw [trace_nil g d f seed order _ st hw]
      exact Nat.zero_le _
    | cons r rest =>
      rw [trace_cons g d f seed order fuel st hw, List.length_cons]
      have hnext := length_trace_le fuel _ (hs.visit hd hmono hw) (hq.visit hQ r rest)
      have hdrop := potential_visit rest hmono hQ h hs hq hw
      omega

/-- A run with at least the potential of its start as budget answers. -/
theorem run_ok_of_potential_le : ∀ (fuel : Nat) (st : Progress L), Grows g d f seed order st →
    st.OutsSatisfy Q → st.potential g order H h.height ≤ fuel →
    ∃ st', Id.run (run g d (fun b x => pure (f b x)) seed order fuel st) = .ok st'
  | 0, st, _, _, hle => by
    -- no budget left: the potential, and with it the worklist, is empty
    have hw : st.work = [] := List.eq_nil_of_length_eq_zero (by unfold Progress.potential at hle; omega)
    exact ⟨st, by rw [run_nil g d _ seed order 0 st hw]; rfl⟩
  | fuel + 1, st, hs, hq, hle => by
    cases hw : st.work with
    | nil => exact ⟨st, by rw [run_nil g d _ seed order _ st hw]; rfl⟩
    | cons r rest =>
      rw [run_pure_cons g d f seed order fuel st hw]
      have hdrop := potential_visit rest hmono hQ h hs hq hw
      exact run_ok_of_potential_le fuel _ (hs.visit hd hmono hw) (hq.visit hQ r rest) (by omega)

end Run

/-- A run that answers counts one iteration per visit. -/
theorem iterations_of_run (g : Graph) (d : Domain L) (f : BlockId → L → L) (seed : L) (order : Array BlockId) :
    ∀ (fuel : Nat) (st st' : Progress L), Id.run (run g d (fun b x => pure (f b x)) seed order fuel st) = .ok st' →
      st'.iterations = st.iterations + (trace g d f seed order fuel st).length
  | fuel, st, st', hrun => by
    cases hw : st.work with
    | nil =>
      rw [run_nil g d _ seed order fuel st hw] at hrun
      cases hrun
      rw [trace_nil g d f seed order fuel st hw]
      rfl
    | cons r rest =>
      cases fuel with
      | zero =>
        rw [run_zero g d _ seed order st hw] at hrun
        cases hrun
      | succ fuel =>
        rw [run_pure_cons g d f seed order fuel st hw] at hrun
        rw [trace_cons g d f seed order fuel st hw, List.length_cons,
          iterations_of_run g d f seed order fuel _ st' hrun]
        simp only [Progress.visit, Progress.advance]
        omega

/-! ### Solves -/

theorem sum_range_blockAt (g : Graph) (F : BlockId → Nat) : ∀ l : List BlockId,
    ∑ r ∈ Finset.range l.toArray.size, F (blockAt g l.toArray r) = (l.map F).sum
  | [] => by simp
  | b :: l => by
    have ih := sum_range_blockAt g F l
    rw [List.size_toArray] at ih ⊢
    rw [List.length_cons, Finset.sum_range_succ', List.map_cons, List.sum_cons]
    simp only [blockAt, List.getElem?_toArray, List.getElem?_cons_succ, List.getElem?_cons_zero,
      Option.getD_some] at ih ⊢
    rw [ih, Nat.add_comm]

theorem sum_range_rankedEdges (g : Graph) :
    ∑ r ∈ Finset.range g.reversePostorder.toArray.size,
      (g.succBlocks (blockAt g g.reversePostorder.toArray r)).length = g.rankedEdges :=
  sum_range_blockAt g (fun b => (g.succBlocks b).length) g.reversePostorder

theorem credit_start (n H : Nat) (height : L → Nat) (r : Nat) :
    (Progress.start n : Progress L).credit H height r = H + 1 := by
  unfold Progress.credit Progress.outAt Progress.start
  by_cases hr : r < n <;> simp [hr]

theorem potential_start (g : Graph) (order : Array BlockId) (H : Nat) (height : L → Nat) :
    (Progress.start order.size : Progress L).potential g order H height =
      1 + (H + 1) * ∑ r ∈ Finset.range order.size, (g.succBlocks (blockAt g order r)).length := by
  unfold Progress.potential
  simp only [credit_start, ← Finset.mul_sum]
  rfl

section Solve

variable {g : Graph} {d : Domain L} {f : BlockId → L → L} {seed : L} {Q : L → Prop} {H : Nat}
  (hd : d.Lawful) (hmono : d.Monotone f) (hQ : Closed d f seed Q) (h : Height d Q H)
include hd hmono hQ h

/-- When the values a solve meets have heights at most `H`, it visits at most `1 + (H + 1) E`
blocks, `E` the number of edges leaving the blocks it ranks, whatever its budget. -/
theorem length_solveTrace_le (budget : Nat) :
    (solveTrace g d f seed budget).length ≤ 1 + (H + 1) * g.rankedEdges := by
  have hlen := length_trace_le hd hmono hQ h budget _ (grows_start (ranking_reversePostorder g))
    (outsSatisfy_start _)
  rwa [potential_start, sum_range_rankedEdges] at hlen

/-- With a budget of `1 + (H + 1) E` visits a solve answers, and counts its visits. -/
theorem solve_ok_of_le {budget : Nat} (hb : 1 + (H + 1) * g.rankedEdges ≤ budget) :
    ∃ sol, Id.run (solve g d (fun b x => pure (f b x)) seed budget) = .ok sol ∧
      sol.iterations = (solveTrace g d f seed budget).length := by
  obtain ⟨st, hst⟩ := run_ok_of_potential_le hd hmono hQ h budget _
    (grows_start (ranking_reversePostorder g)) (outsSatisfy_start _)
    (by rwa [potential_start, sum_range_rankedEdges])
  refine ⟨_, by rw [solve_pure_eq, hst]; rfl, ?_⟩
  rw [iterations_of_run g d f seed _ budget _ st hst]
  simp [Progress.start, solveTrace]

end Solve

end Dataflow

/-! ### The states of a procedure -/

namespace Validation

/-- The height of a state in the diamond: `unknown` at the bottom, `maybeValidated` at the
top. -/
def height : Validation → Nat
  | unknown => 0
  | validated => 1
  | notValidated => 1
  | maybeValidated => 2

theorem height_le_two (a : Validation) : a.height ≤ 2 := by
  cases a <;> decide

theorem height_le_height {a b : Validation} (h : a.le b = true) : a.height ≤ b.height := by
  cases a <;> cases b <;> simp_all [le, height]

theorem height_lt_height {a b : Validation} (h : a.le b = true) (hne : a ≠ b) : a.height < b.height := by
  cases a <;> cases b <;> simp_all [le, height]

end Validation

namespace Procedure

variable {v : Procedure}

/-- A cell a state in scope holds is a cell of the entry state. -/
theorem InScope.exists_initial_key {s : AnalysisState} (hs : v.InScope s) {l : Location}
    (hl : s.get l ≠ .unknown) : ∃ k ∈ v.initialState.keys, k.normal = l.normal := by
  obtain ⟨k₀, hk₀, hn₀⟩ := AnalysisState.exists_mem_of_get_ne hl
  obtain ⟨k, hk, hn⟩ := AnalysisState.contains_iff.mp (hs k₀ (List.mem_map_of_mem hk₀)).2
  exact ⟨k, hk, hn.trans hn₀⟩

variable (v)

/-- The states in scope hold the entry state and the bottom, and joins and transfers keep
them in scope. -/
theorem factClosed : Dataflow.Closed v.factDomain v.factFlow v.initialFact (fun x => v.InScope x.state) where
  seed := inScope_initialState
  bottom := inScope_emptyState
  join _ _ ha hb := ha.merge hb
  flow _ _ hx := hx.flow _

/-- A state in scope rises at most twice at each cell of the entry state: its height is the sum of
the heights of those cells. -/
def factHeight : Dataflow.Height v.factDomain (fun x => v.InScope x.state) (2 * v.initialState.size) where
  height x := (v.initialState.keys.map fun k => (x.state.get k).height).sum
  le_bound x _ := by
    calc (v.initialState.keys.map fun k => (x.state.get k).height).sum
        ≤ (v.initialState.keys.map fun k => (x.state.get k).height).length • 2 :=
          List.sum_le_card_nsmul _ 2 fun n hn => by
            obtain ⟨k, -, rfl⟩ := List.mem_map.mp hn
            exact Validation.height_le_two _
      _ = 2 * v.initialState.size := by
          simp [AnalysisState.keys, AnalysisState.size, Nat.mul_comm]
  mono x y _ _ hle := List.sum_le_sum fun k _ => Validation.height_le_height (factDomain_le_iff.mp hle k)
  strict x y hx hy hle hne := by
    -- a cell where the states differ is a cell of the entry state, where `y` is strictly higher
    have hdiff : ¬ ∀ l, y.state.get l = x.state.get l := fun h =>
      Bool.false_ne_true (hne.symm.trans (factDomain_same_iff.mpr h))
    obtain ⟨l, hl⟩ := not_forall.mp hdiff
    have hkey : ∃ k ∈ v.initialState.keys, k.normal = l.normal := by
      by_cases hxl : x.state.get l = .unknown
      · exact hy.exists_initial_key fun hyl => hl (hyl.trans hxl.symm)
      · exact hx.exists_initial_key hxl
    obtain ⟨k, hk, hkl⟩ := hkey
    refine List.sum_lt_sum _ _ (fun k _ => Validation.height_le_height (factDomain_le_iff.mp hle k))
      ⟨k, hk, Validation.height_lt_height (factDomain_le_iff.mp hle k) fun heq => hl ?_⟩
    rw [← y.state.get_congr hkl, ← x.state.get_congr hkl, heq]

variable {v}

/-- The analysis of a procedure converges within `1 + (2 K + 1) E` block visits, `K` the cells of
the entry state and `E` the edges leaving the reachable blocks. -/
theorem visits_within_bound {m : Type → Type} [Monad m] [LawfulMonad m] (facts : Facts) (options : Options)
    (g : Graph) (summaryOf : Option (MethodId → m (Option UsageMap))) (budget : Nat) (S : Finset BlockId)
    (hS : ∀ b, g.Reaches g.entry b → b ∈ S) :
    let v := Procedure.new facts options g
    let bound := 1 + (2 * v.initialState.size + 1) * ∑ b ∈ S, (g.succBlocks b).length
    ∃ (visits : List (BlockId × AnalysisState)) (res : Except Nat (Dataflow.Solution AnalysisState)),
      visits.length ≤ bound ∧
      Dataflow.solve g v.domain (v.transfer summaryOf) v.initialState budget =
        (visits.forM fun w => (fun _ => ()) <$> v.transfer summaryOf w.1 w.2) >>= (fun _ => pure res) ∧
      (bound ≤ budget → ∃ sol, res = .ok sol ∧ sol.iterations = visits.length) := by
  intro v bound
  have hE : 1 + (2 * v.initialState.size + 1) * g.rankedEdges ≤ bound :=
    Nat.add_le_add_left (Nat.mul_le_mul_left _ (g.rankedEdges_le S hS)) 1
  -- the solve runs on the procedure's states, where heights are bounded
  have htrace : Dataflow.solveTrace g v.domain v.flow v.initialState budget =
      (Dataflow.solveTrace g v.factDomain v.factFlow v.initialFact budget).map fun w => (w.1, w.2.state) :=
    Dataflow.solveTrace_map factDomain_hom (fun _ _ => rfl) v.initialFact budget
  have hsolve : Id.run (Dataflow.solve g v.domain (fun b x => pure (v.flow b x)) v.initialState budget) =
      (Id.run (Dataflow.solve g v.factDomain (fun b x => pure (v.factFlow b x)) v.initialFact budget)).map
        (Dataflow.Solution.map Fact.state) :=
    Dataflow.solve_map factDomain_hom (fun _ _ => rfl) v.initialFact budget
  refine ⟨Dataflow.solveTrace g v.domain v.flow v.initialState budget,
    Id.run (Dataflow.solve g v.domain (fun b x => pure (v.flow b x)) v.initialState budget), ?_,
    Dataflow.solve_factor _ (v.transfer_returns summaryOf), fun hb => ?_⟩
  · rw [htrace, List.length_map]
    exact (Dataflow.length_solveTrace_le factDomain_lawful monotone_factFlow (factClosed v) (factHeight v)
      budget).trans hE
  · obtain ⟨sol, hsol, hiter⟩ := Dataflow.solve_ok_of_le factDomain_lawful monotone_factFlow (factClosed v)
      (factHeight v) (hE.trans hb)
    refine ⟨sol.map Fact.state, by rw [hsolve, hsol]; rfl, ?_⟩
    rw [htrace, List.length_map]
    exact hiter

end Procedure

/-- The blocks of `f` are the entry, the body and the exit; with one cell in its entry state and
three edges, a budget of ten visits is enough for its solve. -/
theorem visits_within_bound_readLoop :
    (∀ b, readLoopGraph.Reaches readLoopGraph.entry b → b ∈ ({0, 1, 2} : Finset BlockId)) ∧
      ∃ (visits : List (BlockId × AnalysisState)) (res : Except Nat (Dataflow.Solution AnalysisState)),
        visits.length ≤ 10 ∧
        Dataflow.solve readLoopGraph (Procedure.new oneParamFacts {} readLoopGraph).domain
            ((Procedure.new oneParamFacts {} readLoopGraph).transfer (m := Id) none)
            (Procedure.new oneParamFacts {} readLoopGraph).initialState 10 =
          (visits.forM fun w => (fun _ => ()) <$>
            (Procedure.new oneParamFacts {} readLoopGraph).transfer (m := Id) none w.1 w.2) >>= (fun _ => pure res) ∧
        ∃ sol, res = .ok sol ∧ sol.iterations = visits.length := by
  have hclosed : ∀ b ∈ ({0, 1, 2} : Finset BlockId), ∀ c ∈ readLoopGraph.succBlocks b,
      c ∈ ({0, 1, 2} : Finset BlockId) := by decide
  have hS : ∀ b, readLoopGraph.Reaches readLoopGraph.entry b → b ∈ ({0, 1, 2} : Finset BlockId) := by
    intro b hb
    induction hb with
    | refl => decide
    | tail _ hc ih => exact hclosed _ ih _ hc
  have hbound : 1 + (2 * (Procedure.new oneParamFacts {} readLoopGraph).initialState.size + 1) *
      ∑ b ∈ ({0, 1, 2} : Finset BlockId), (readLoopGraph.succBlocks b).length = 10 := by decide
  obtain ⟨visits, res, hlen, hsolve, hok⟩ :=
    Procedure.visits_within_bound oneParamFacts {} readLoopGraph (m := Id) none 10 {0, 1, 2} hS
  rw [hbound] at hlen hok
  exact ⟨hS, visits, res, hlen, hsolve, hok le_rfl⟩

end NullGuard
