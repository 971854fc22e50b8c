import NullGuard.Proofs.Replay

/-!
# Outcomes with no call-chain limit

With no limit on the call chain, the outcome of a procedure is its body analysed with the
summary of each summarizable callee taken from that callee's own outcome, so analysed. The
callees a body may ask for are those the operations of its blocks call (`Analysis.Calls`).
Where the calls below a procedure never come back to it, that is, where the procedure is
accessible for the converse of `Calls`, this recursion defines one outcome
(`Unlimited.exists_of_acc`, `Unlimited.unique`).

The options a request runs with matter to the body, except the call-chain limit, which only
the summary requests read (`bodyOf_maxCallChain`).
-/

namespace NullGuard.Analysis

/-- The body of `X` may ask for the summary of `C`: `C` qualifies for one, and an operation of a
block of `X`'s graph calls it. -/
def Calls (env : Env) (X C : MethodId) : Prop :=
  isSummarizable env C = true ∧ ∃ g, env.facts.graph? X = some g ∧ ∃ b, C ∈ (g.block b).callees

/-- The summary answers for callees given outcomes of the summarizable ones. -/
def answerFrom (env : Env) (R : MethodId → Outcome) (C : MethodId) : Option UsageMap :=
  if isSummarizable env C then some (R C).usages else none

/-- `Unlimited env X r`: `r` is the outcome of `X` with no call-chain limit, its body analysed
with the summary of each callee it may ask for taken from that callee's outcome so defined. -/
inductive Unlimited (env : Env) : MethodId → Outcome → Prop
  | body (X : MethodId) (R : MethodId → Outcome) :
      (∀ C, Calls env X C → Unlimited env C (R C)) → Unlimited env X (bodyOf env (answerFrom env R) X)

variable {env : Env}

/-- The callees of a block are callees of one of the graph's blocks. -/
theorem mem_callees_block {g : Graph} {b : BlockId} {C : MethodId} (h : C ∈ (g.block b).callees) :
    ∃ blk ∈ g.cells, C ∈ blk.callees := by
  unfold Graph.block at h
  cases hb : g.cells[b]? with
  | none =>
    -- a block out of range reads as the default one, which calls nothing
    have hnil : (default : Block).callees = [] := rfl
    rw [hb, Option.getD_none, hnil] at h
    cases h
  | some blk =>
    rw [hb] at h
    exact ⟨blk, Array.mem_of_getElem? hb, h⟩

/-- A procedure has at most one outcome with no call-chain limit. -/
theorem Unlimited.unique {X : MethodId} {r r' : Outcome} (h : Unlimited env X r) (h' : Unlimited env X r') :
    r = r' := by
  induction h generalizing r' with
  | body X R _ ih =>
    cases h' with
    | body _ R' hR' =>
      -- the two tables agree on every callee the body may ask for
      apply bodyOf_congr
      intro g hg b c hc
      unfold answerFrom
      split
      · rename_i hsum
        have hcall : Calls env X c := ⟨hsum, g, hg, b, hc⟩
        rw [ih c hcall (hR' c hcall)]
      · rfl

/-- One outcome for each callee a body may ask for gives a table of them. -/
theorem Unlimited.choose_table {X : MethodId} (h : ∀ C, Calls env X C → ∃ r, Unlimited env C r) :
    ∃ R : MethodId → Outcome, ∀ C, Calls env X C → Unlimited env C (R C) := by
  classical
  refine ⟨fun C => if hC : Calls env X C then (h C hC).choose else { method := C }, fun C hC => ?_⟩
  simp only [dif_pos hC]
  exact (h C hC).choose_spec

/-- A procedure below which the calls never come back has an outcome with no call-chain limit. -/
theorem Unlimited.exists_of_acc {X : MethodId} (h : Acc (fun C Y => Calls env Y C) X) :
    ∃ r, Unlimited env X r := by
  induction h with
  | intro X _ ih =>
    obtain ⟨R, hR⟩ := choose_table ih
    exact ⟨_, Unlimited.body X R hR⟩

/-- Outcomes with no call-chain limit for every callee a body may ask for. -/
theorem Unlimited.exists_table {X : MethodId} (h : Acc (fun C Y => Calls env Y C) X) :
    ∃ R : MethodId → Outcome, ∀ C, Calls env X C → Unlimited env C (R C) :=
  choose_table fun _ hC => exists_of_acc (h.inv hC)

/-- The call-chain limit is read by summary requests only. -/
theorem bodyOf_maxCallChain (facts : Facts) (o : Options) (k : Int) :
    bodyOf ⟨facts, { o with maxCallChain := k }⟩ = bodyOf ⟨facts, o⟩ :=
  rfl

end NullGuard.Analysis
