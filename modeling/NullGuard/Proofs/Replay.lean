import NullGuard.Analysis.Run
import NullGuard.Proofs.Flow

/-!
# Runs that replay fixed summary answers

A procedure's body asks for the summaries of its callees while it runs, and what a request
answers depends on the session: on the call chain, the cache and the call-chain limit. This
file says when such a run returns what a run with other answers returns.

`AnswersAs I P z w`: run from a session satisfying an invariant `I`, the computation `z` keeps
`I`, keeps a flag `P` once it is raised, and returns what `w` returns from any session unless it
ends with the flag raised. `RunsAs` is the same for the steps of the transfer, from every hazard
log. Both are closed under the constructs the transfer is written with, so that a whole solve,
and the analysis of a body, answer as a run with other answers whenever each request of a
callee of the body does (`Analysis.analyzeBody_answersAs`).

A request that asks only for the callees an operation names never asks for others: the
callees of a block are read off its operations (`Block.callees`), and two sets of answers that
agree on them give the same run.
-/

namespace NullGuard

/-- The method an operation calls: an invocation or an object creation with a resolved
callee. -/
def Operation.callee? (op : Operation) : Option MethodId :=
  match op.kind with
  | .invocation | .objectCreation => op.info.method
  | _ => none

/-- The methods the operations of a block call, in the order the transfer visits them. -/
def Block.callees (blk : Block) : List MethodId :=
  (blk.ops.flatMap fun top => top.visits false).filterMap fun step => step.1.callee?

section Replay

variable {σ τ α β : Type} (I P : σ → Prop)

/-- Run from a session satisfying `I`, `z` ends in one satisfying `I`, keeps `P` once it holds,
and returns what `w` returns from any session unless it ends in `P`. -/
def AnswersAs (z : StateM σ α) (w : StateM τ α) : Prop :=
  ∀ s t, I s → ∀ a s' b t', z.run s = (a, s') → w.run t = (b, t') →
    I s' ∧ (P s → P s') ∧ (¬ P s' → a = b)

/-- `AnswersAs` for the steps of the transfer, from every hazard log. -/
def RunsAs (x : VisitM (StateM σ) α) (y : VisitM (StateM τ) α) : Prop :=
  ∀ log, AnswersAs I P (x.run log) (y.run log)

variable {I P}

namespace AnswersAs

/-- A request that keeps `I` and `P` and answers `a` unless it raises `P` answers as `pure a`. -/
theorem of_answer {z : StateM σ α} {a : α}
    (h : ∀ s, I s → ∀ b s', z.run s = (b, s') → I s' ∧ (P s → P s') ∧ (¬ P s' → b = a)) :
    AnswersAs I P z (Pure.pure a : StateM τ α) := by
  intro s t hs b s' a' t' hz hw
  have ha : a' = a := (Prod.mk.inj hw).1.symm
  subst ha
  exact h s hs b s' hz

theorem pure (a : α) : AnswersAs I P (Pure.pure a : StateM σ α) (Pure.pure a : StateM τ α) := by
  intro s t hs b s' b' t' hz hw
  cases hz
  cases hw
  exact ⟨hs, id, fun _ => rfl⟩

theorem bind {z : StateM σ α} {w : StateM τ α} {k : α → StateM σ β} {k' : α → StateM τ β}
    (hz : AnswersAs I P z w) (hk : ∀ a, AnswersAs I P (k a) (k' a)) :
    AnswersAs I P (z >>= k) (w >>= k') := by
  intro s t hs c s₂ c' t₂ hzk hwk
  rw [StateT.run_bind] at hzk hwk
  rcases hzr : z.run s with ⟨a, s₁⟩
  rcases hwr : w.run t with ⟨b, t₁⟩
  rw [hzr] at hzk
  rw [hwr] at hwk
  obtain ⟨hs₁, hP₁, ha⟩ := hz s t hs a s₁ b t₁ hzr hwr
  rcases hkr : (k' a).run t₁ with ⟨c'', t₂'⟩
  obtain ⟨hs₂, hP₂, hc⟩ := hk a s₁ t₁ hs₁ c s₂ c'' t₂' hzk hkr
  refine ⟨hs₂, fun h => hP₂ (hP₁ h), fun h => ?_⟩
  -- with `P` down at the end it was down in the middle, so both continuations start alike
  have hab : a = b := ha fun h₁ => h (hP₂ h₁)
  subst hab
  have hwk' : (k' a).run t₁ = (c', t₂) := hwk
  rw [hkr] at hwk'
  rw [hc h, (Prod.mk.inj hwk').1]

end AnswersAs

namespace RunsAs

theorem pure (a : α) : RunsAs I P (Pure.pure a : VisitM (StateM σ) α) (Pure.pure a : VisitM (StateM τ) α) :=
  fun log => by
    rw [StateT.run_pure, StateT.run_pure]
    exact AnswersAs.pure _

theorem bind {x : VisitM (StateM σ) α} {y : VisitM (StateM τ) α} {k : α → VisitM (StateM σ) β}
    {k' : α → VisitM (StateM τ) β} (hx : RunsAs I P x y) (hk : ∀ a, RunsAs I P (k a) (k' a)) :
    RunsAs I P (x >>= k) (y >>= k') := fun log => by
  rw [StateT.run_bind, StateT.run_bind]
  exact (hx log).bind fun p => hk p.1 p.2

theorem map {x : VisitM (StateM σ) α} {y : VisitM (StateM τ) α} (h : RunsAs I P x y) (g : α → β) :
    RunsAs I P (g <$> x) (g <$> y) := by
  rw [map_eq_pure_bind, map_eq_pure_bind]
  exact h.bind fun a => pure (g a)

theorem ite (c : Prop) [Decidable c] {x x' : VisitM (StateM σ) α} {y y' : VisitM (StateM τ) α}
    (h : RunsAs I P x y) (h' : RunsAs I P x' y') :
    RunsAs I P (if c then x else x') (if c then y else y') := by
  by_cases hc : c
  · simpa only [if_pos hc] using h
  · simpa only [if_neg hc] using h'

theorem get : RunsAs I P (MonadState.get : VisitM (StateM σ) HazardLog) (MonadState.get : VisitM (StateM τ) HazardLog) :=
  fun log => by
    rw [StateT.run_get, StateT.run_get]
    exact AnswersAs.pure _

theorem modify (g : HazardLog → HazardLog) :
    RunsAs I P (modify g : VisitM (StateM σ) PUnit) (modify g : VisitM (StateM τ) PUnit) := fun log => by
  rw [StateT.run_modify, StateT.run_modify]
  exact AnswersAs.pure _

/-- A summary request runs as another when it answers as it. -/
theorem lift {z : StateM σ α} {w : StateM τ α} (h : AnswersAs I P z w) :
    RunsAs I P (liftM z : VisitM (StateM σ) α) (liftM w : VisitM (StateM τ) α) := fun log => by
  rw [StateT.run_monadLift, StateT.run_monadLift]
  exact h.bind fun _ => AnswersAs.pure _

theorem forM {γ : Type} (f : γ → VisitM (StateM σ) PUnit) (f' : γ → VisitM (StateM τ) PUnit) :
    ∀ (l : List γ), (∀ a ∈ l, RunsAs I P (f a) (f' a)) → RunsAs I P (l.forM f) (l.forM f')
  | [], _ => pure PUnit.unit
  | a :: l, hf => by
    rw [show (a :: l).forM f = (f a >>= fun _ => l.forM f) from rfl,
      show (a :: l).forM f' = (f' a >>= fun _ => l.forM f') from rfl]
    exact (hf a List.mem_cons_self).bind fun _ => forM f f' l fun a' ha' => hf a' (List.mem_cons_of_mem _ ha')

theorem forIn {γ ρ : Type} (f : γ → ρ → VisitM (StateM σ) (ForInStep ρ))
    (f' : γ → ρ → VisitM (StateM τ) (ForInStep ρ)) :
    ∀ (l : List γ) (b : ρ), (∀ a ∈ l, ∀ b, RunsAs I P (f a b) (f' a b)) → RunsAs I P (forIn l b f) (forIn l b f')
  | [], b, _ => by simpa using pure b
  | a :: l, b, hf => by
    rw [List.forIn_cons, List.forIn_cons]
    refine (hf a List.mem_cons_self b).bind fun r => ?_
    cases r with
    | done b' => exact pure b'
    | yield b' => exact forIn f f' l b' fun a' ha' => hf a' (List.mem_cons_of_mem _ ha')

theorem foldlM {γ : Type} (f : α → γ → VisitM (StateM σ) α) (f' : α → γ → VisitM (StateM τ) α) :
    ∀ (l : List γ) (a : α), (∀ e ∈ l, ∀ a, RunsAs I P (f a e) (f' a e)) → RunsAs I P (l.foldlM f a) (l.foldlM f' a)
  | [], a, _ => by simpa using pure a
  | e :: l, a, hf => by
    rw [List.foldlM_cons, List.foldlM_cons]
    exact (hf e List.mem_cons_self a).bind fun a' => foldlM f f' l a' fun e' he' => hf e' (List.mem_cons_of_mem _ he')

end RunsAs

variable (I P) in
/-- Two ways of asking for summaries agree on the callees in `S`: both absent, or both present
and answering alike for every callee in `S`. -/
def LookupsAgree (S : MethodId → Prop) (lookup : Option (MethodId → StateM σ (Option UsageMap)))
    (lookup' : Option (MethodId → StateM τ (Option UsageMap))) : Prop :=
  Option.Rel (fun f f' => ∀ c, S c → AnswersAs I P (f c) (f' c)) lookup lookup'

end Replay

namespace Procedure

variable (v : Procedure) {σ τ : Type} {I P : σ → Prop}

theorem record_runsAs (site : Option Span) (ls : List Location) :
    RunsAs I P (record site ls : VisitM (StateM σ) Unit) (record site ls : VisitM (StateM τ) Unit) := by
  unfold record
  refine RunsAs.forM _ _ ls fun l _ => ?_
  cases l.parameter? with
  | none => exact RunsAs.pure _
  | some p => exact RunsAs.modify _

theorem check_runsAs (op : Operation) (ls : List Location) :
    RunsAs I P (v.checkHazard op ls : VisitM (StateM σ) Unit) (v.checkHazard op ls : VisitM (StateM τ) Unit) := by
  unfold checkHazard
  exact RunsAs.ite _ (RunsAs.pure _) (record_runsAs _ _)

variable {S : MethodId → Prop} {lookup : Option (MethodId → StateM σ (Option UsageMap))}
  {lookup' : Option (MethodId → StateM τ (Option UsageMap))} (hl : LookupsAgree I P S lookup lookup')
include hl

theorem regular_runsAs {callee : MethodId} (hc : S callee) (args : List Operation) (s : AnalysisState) :
    RunsAs I P (v.callRegular lookup callee args s) (v.callRegular lookup' callee args s) := by
  unfold callRegular
  dsimp only
  refine RunsAs.ite _ (RunsAs.ite _ (RunsAs.pure _) (RunsAs.pure _)) (RunsAs.ite _ ?_ ?_)
  · split_ifs <;> exact RunsAs.pure _
  cases hl with
  | none => exact RunsAs.pure s
  | @some f f' h =>
    dsimp only
    refine RunsAs.ite _ (RunsAs.pure s) (RunsAs.bind (RunsAs.lift (h callee hc)) fun o => ?_)
    cases o with
    | none => exact RunsAs.pure s
    | some summary =>
      refine RunsAs.ite _ (RunsAs.pure s) (RunsAs.bind (RunsAs.forIn _ _ _ _ fun e _ b => ?_) fun _ => RunsAs.pure s)
      obtain ⟨arg, i⟩ := e
      dsimp only
      cases v.boundParameter callee args i arg with
      | none => exact RunsAs.pure _
      | some q =>
        exact RunsAs.ite _ ((v.check_runsAs arg _).bind fun _ => RunsAs.pure _) (RunsAs.pure _)

theorem nested_runsAs {callee : MethodId} (hc : S callee) (s : AnalysisState) :
    RunsAs I P (v.callNested lookup callee s) (v.callNested lookup' callee s) := by
  unfold callNested
  cases hl with
  | none => exact RunsAs.pure s
  | @some f f' h =>
    refine RunsAs.bind (RunsAs.lift (h callee hc)) fun o => ?_
    cases o with
    | none => exact RunsAs.pure s
    | some summary =>
      dsimp only
      refine RunsAs.ite _ (RunsAs.pure s) (RunsAs.ite _ (RunsAs.pure s)
        (RunsAs.bind (RunsAs.forIn _ _ _ _ fun e _ b => ?_) fun _ => RunsAs.pure s))
      obtain ⟨q, site⟩ := e
      exact RunsAs.get.bind fun log =>
        RunsAs.ite _ ((record_runsAs _ _).bind fun _ => RunsAs.pure _) (RunsAs.pure _)

theorem visit_runsAs (s : AnalysisState) (step : Operation × Bool)
    (hc : ∀ c, step.1.callee? = some c → S c) :
    RunsAs I P (v.visit lookup s step) (v.visit lookup' s step) := by
  obtain ⟨op, deref⟩ := step
  unfold Operation.callee? at hc
  unfold visit
  dsimp only at hc ⊢
  -- the hazard check after the call, from whatever state the call leaves
  have hderef : ∀ s', RunsAs I P
      (if deref = true then v.checkHazard op (v.notValidated op s') >>= fun _ => pure s' else pure s' :
        VisitM (StateM σ) AnalysisState)
      (if deref = true then v.checkHazard op (v.notValidated op s') >>= fun _ => pure s' else pure s' :
        VisitM (StateM τ) AnalysisState) :=
    fun s' => RunsAs.ite _ ((v.check_runsAs _ _).bind fun _ => RunsAs.pure _) (RunsAs.pure _)
  generalize op.kind = k at hc ⊢
  generalize op.info.method = callee? at hc ⊢
  cases callee? with
  | none => cases k <;> exact (RunsAs.pure s).bind hderef
  | some callee =>
    cases k
    case invocation =>
      exact RunsAs.ite _ ((v.nested_runsAs hl (hc callee rfl) s).bind hderef)
        ((v.regular_runsAs hl (hc callee rfl) _ s).bind hderef)
    case objectCreation => exact (v.regular_runsAs hl (hc callee rfl) _ s).bind hderef
    all_goals exact (RunsAs.pure s).bind hderef

theorem transfer_runsAs (b : BlockId) (s : AnalysisState) (hc : ∀ c ∈ (v.graph.block b).callees, S c) :
    RunsAs I P (v.transfer lookup b s) (v.transfer lookup' b s) := by
  unfold transfer
  dsimp only
  refine (RunsAs.foldlM _ _ _ s fun step hstep s => v.visit_runsAs hl s step fun c hcall => hc c ?_).bind
    fun _ => RunsAs.pure _
  exact List.mem_filterMap.mpr ⟨step, hstep, hcall⟩

/-- A solve runs as a solve with other summary answers when the two agree on every callee of
the procedure's blocks. -/
theorem solve_runsAs (g : Graph) (budget : Nat) (hc : ∀ b, ∀ c ∈ (v.graph.block b).callees, S c) :
    RunsAs I P (Dataflow.solve g v.domain (v.transfer lookup) v.initialState budget)
      (Dataflow.solve g v.domain (v.transfer lookup') v.initialState budget) := by
  rw [Dataflow.solve_factor (v.transfer lookup) (v.transfer_returns lookup),
    Dataflow.solve_factor (v.transfer lookup') (v.transfer_returns lookup')]
  exact (RunsAs.forM _ _ _ fun w _ => (v.transfer_runsAs hl w.1 w.2 (hc w.1)).map _).bind
    fun _ => RunsAs.pure _

end Procedure

end NullGuard

namespace NullGuard.Analysis

/-- The outcome of a body whose summary requests are answered from a table. -/
def bodyOf (env : Env) (answer : MethodId → Option UsageMap) (p : MethodId) : Outcome :=
  ((analyzeBody env (fun c => pure (answer c)) p).run {}).1

variable {I P : Session → Prop}

/-- The analysis of a body answers as one with other summary requests when the two answer alike
for every callee of its blocks. -/
theorem analyzeBody_answersAs (env : Env) (f f' : MethodId → SessionM (Option UsageMap)) (p : MethodId)
    (hf : ∀ g, env.facts.graph? p = some g → ∀ b, ∀ c ∈ (g.block b).callees, AnswersAs I P (f c) (f' c)) :
    AnswersAs I P (analyzeBody env f p) (analyzeBody env f' p) := by
  unfold analyzeBody Dataflow.solveTimed
  cases hg : env.facts.graph? p with
  | none => exact AnswersAs.pure _
  | some g =>
    dsimp only
    cases g.validate (env.prog.methodRepr p) with
    | error _ => exact AnswersAs.pure _
    | ok u =>
      cases u
      dsimp only
      have hl : LookupsAgree I P (fun c => ∃ b, c ∈ (g.block b).callees)
          (if env.options.interprocedural then some f else none)
          (if env.options.interprocedural then some f' else none) := by
        split
        · exact .some fun c ⟨b, hc⟩ => hf g hg b c hc
        · exact .none
      refine (((Procedure.new env.facts env.options g).solve_runsAs hl g _ (fun b c hc => ⟨b, hc⟩)).map _
        {}).bind fun r => ?_
      obtain ⟨res, log⟩ := r
      cases res <;> exact AnswersAs.pure _

/-- A body whose summary requests keep `I` and `P`, and answer from a table unless they raise
`P`, has the outcome the table gives it unless it raises `P`. -/
theorem analyzeBody_answers (env : Env) (f : MethodId → SessionM (Option UsageMap))
    (answer : MethodId → Option UsageMap) (p : MethodId)
    (hf : ∀ g, env.facts.graph? p = some g → ∀ b, ∀ c ∈ (g.block b).callees, ∀ s, I s →
      ∀ o s', (f c).run s = (o, s') → I s' ∧ (P s → P s') ∧ (¬ P s' → o = answer c))
    (s : Session) (hs : I s) {r : Outcome} {s' : Session} (hrun : (analyzeBody env f p).run s = (r, s')) :
    I s' ∧ (P s → P s') ∧ (¬ P s' → r = bodyOf env answer p) := by
  have h := analyzeBody_answersAs env f (fun c => pure (answer c)) p fun g hg b c hc =>
    AnswersAs.of_answer (hf g hg b c hc)
  exact h s {} hs r s' _ _ hrun rfl

/-- The outcome from a table depends only on the answers for the callees of the body's blocks. -/
theorem bodyOf_congr (env : Env) {answer answer' : MethodId → Option UsageMap} (p : MethodId)
    (h : ∀ g, env.facts.graph? p = some g → ∀ b, ∀ c ∈ (g.block b).callees, answer c = answer' c) :
    bodyOf env answer p = bodyOf env answer' p := by
  have hrun := analyzeBody_answersAs (I := fun _ => True) (P := fun _ => False) env
    (fun c => pure (answer c)) (fun c => pure (answer' c)) p fun g hg b c hc => by
      rw [h g hg b c hc]
      exact AnswersAs.pure _
  exact (hrun {} {} trivial _ _ _ _ rfl rfl).2.2 id

end NullGuard.Analysis
