import NullGuard.Proofs.Hazards

/-!
# What a body's outcome is made of

The solver runs the transfer of a body with its effects, recording hazards and asking for
callee summaries; what it answers is still the answer of the transfer without effects
(`solve_factor`). So the outcome of a body is read off two things: the converged answer of the
solver on its graph (`Analysis.dataflowOf`), which depends neither on the summaries nor on the
session, and the hazards the run records.

* `Analysis.analyzeBody_run`: a body's outcome is either the bare outcome of a procedure that
  could not be analysed, or the converged answer with the hazards the solve recorded;
* `Analysis.analyzeBody_ofBody`: whatever its summaries answer, the outcome is complete exactly
  when the solver converges, its dataflow is the converged answer, and an incomplete outcome
  has no hazards (`Outcome.OfBody`);
* `Analysis.summaries_only_add_hazards`: with summaries answered from two tables, the first
  naming fewer parameters than the second for every callee, or with summaries not consulted at
  all in the first run, the two outcomes have the same dataflow and completeness, and the first
  reports no parameter the second does not.
-/

namespace NullGuard

/-- A computation that always returns `a`, run in the transfer's monad over sessions, returns
`a` from every log and session. -/
theorem Returns.run_fst {α : Type} {x : VisitM SessionM α} {a : α} (hx : Returns x a) (log : HazardLog)
    (s : Session) : ((x.run log).run s).1.1 = a := by
  rw [← hx]
  simp only [StateT.run_map]
  rfl

/-! ### Summary answers that name fewer parameters -/

/-- The parameters the answer for a callee names: none when summaries are not consulted or
the callee has no answer. -/
def answerParams (answers : Option (MethodId → Option UsageMap)) (c : MethodId) : List ParamRef :=
  match answers.bind (· c) with
  | some u => u.parameters
  | none => []

/-- Every parameter the first answers name for a callee, the second name too. -/
def AnswersLe (answers₁ answers₂ : Option (MethodId → Option UsageMap)) : Prop :=
  ∀ c, ∀ q ∈ answerParams answers₁ c, q ∈ answerParams answers₂ c

theorem UsageMap.contains_iff_mem_parameters {u : UsageMap} {q : ParamRef} :
    u.contains q = true ↔ q ∈ u.parameters := by
  unfold UsageMap.contains UsageMap.parameters
  rw [List.lookup_isSome_iff]
  simp only [beq_iff_eq, List.mem_map]
  exact ⟨fun ⟨e, he, h⟩ => ⟨e, he, h.symm⟩, fun ⟨e, he, h⟩ => ⟨e, he, h.symm⟩⟩

namespace Procedure

variable {v : Procedure}

theorem mem_nestedHazards {answers : Option (MethodId → Option UsageMap)} {callee : MethodId}
    {s : AnalysisState} {q : ParamRef} :
    q ∈ nestedHazards answers callee s ↔
      q ∈ answerParams answers callee ∧ s.hazardous.any (·.parameter? == some q) = true := by
  unfold nestedHazards answerParams
  cases answers.bind (· callee) with
  | none => simp
  | some u => simp

theorem mem_regularHazards {answers : Option (MethodId → Option UsageMap)} {callee : MethodId}
    {args : List Operation} {s : AnalysisState} {q : ParamRef} :
    q ∈ v.regularHazards answers callee args s ↔ v.consultsSummary callee args = true ∧
      ∃ e ∈ args.zip (List.range args.length),
        (∃ p, v.boundParameter callee args e.2 e.1 = some p ∧ p ∈ answerParams answers callee) ∧
          q ∈ v.exposed e.1 s := by
  unfold regularHazards answerParams
  by_cases hc : v.consultsSummary callee args = true
  · rw [if_pos hc]
    cases answers.bind (· callee) with
    | none => simp
    | some u =>
      simp only [List.mem_flatMap, List.mem_filter, Option.any_eq_true, hc, true_and,
        UsageMap.contains_iff_mem_parameters]
      constructor
      · rintro ⟨e, ⟨he, p, hp, hpu⟩, hq⟩
        exact ⟨e, he, ⟨p, hp, hpu⟩, hq⟩
      · rintro ⟨e, he, ⟨p, hp, hpu⟩, hq⟩
        exact ⟨e, ⟨he, p, hp, hpu⟩, hq⟩
  · rw [if_neg hc]
    simp [hc]

/-! ### Hazards only grow with the answers -/

section Answers

variable {answers₁ answers₂ : Option (MethodId → Option UsageMap)} (hle : AnswersLe answers₁ answers₂)
include hle

theorem mem_regularHazards_of_answersLe {callee : MethodId} {args : List Operation} {s : AnalysisState}
    {q : ParamRef} (hq : q ∈ v.regularHazards answers₁ callee args s) :
    q ∈ v.regularHazards answers₂ callee args s := by
  obtain ⟨hc, e, he, ⟨p, hp, hpa⟩, hqe⟩ := mem_regularHazards.mp hq
  exact mem_regularHazards.mpr ⟨hc, e, he, ⟨p, hp, hle callee p hpa⟩, hqe⟩

theorem mem_nestedHazards_of_answersLe {callee : MethodId} {s : AnalysisState} {q : ParamRef}
    (hq : q ∈ nestedHazards answers₁ callee s) : q ∈ nestedHazards answers₂ callee s := by
  obtain ⟨hqa, hhaz⟩ := mem_nestedHazards.mp hq
  exact mem_nestedHazards.mpr ⟨hle callee q hqa, hhaz⟩

theorem mem_callHazards_of_answersLe {s : AnalysisState} {op : Operation} {q : ParamRef}
    (hq : q ∈ v.callHazards answers₁ s op) : q ∈ v.callHazards answers₂ s op := by
  unfold callHazards at hq ⊢
  revert hq
  generalize op.kind = k
  generalize op.info.method = callee?
  cases callee? with
  | none => cases k <;> exact id
  | some callee =>
    cases k
    case invocation =>
      dsimp only
      by_cases hn : v.prog.isNested callee = true
      · rw [if_pos hn, if_pos hn]
        exact mem_nestedHazards_of_answersLe hle
      · rw [if_neg hn, if_neg hn]
        exact mem_regularHazards_of_answersLe hle
    case objectCreation => exact mem_regularHazards_of_answersLe hle
    all_goals exact id

/-- The walk finds with more answers whatever it finds with fewer: the states it walks through
do not depend on the answers. -/
theorem mem_walkHazards_of_answersLe {q : ParamRef} :
    ∀ (steps : List (Operation × Bool)) (s : AnalysisState),
      q ∈ v.walkHazards answers₁ s steps → q ∈ v.walkHazards answers₂ s steps
  | [], _, hq => hq
  | step :: steps, s, hq => by
    unfold walkHazards visitHazards at hq ⊢
    rcases List.mem_append.mp hq with hq | hq
    · rcases List.mem_append.mp hq with hq | hq
      · exact List.mem_append_left _ (List.mem_append_left _ (mem_callHazards_of_answersLe hle hq))
      · exact List.mem_append_left _ (List.mem_append_right _ hq)
    · exact List.mem_append_right _ (mem_walkHazards_of_answersLe steps _ hq)

theorem mem_blockHazards_of_answersLe (b : BlockId) (s : AnalysisState) {q : ParamRef}
    (hq : q ∈ v.blockHazards answers₁ b s) : q ∈ v.blockHazards answers₂ b s :=
  mem_walkHazards_of_answersLe hle _ s hq

end Answers

end Procedure

namespace Analysis

/-! ### The converged answer of a body -/

/-- The transfer constants of a procedure's graph, under the facts and options of an analysis. -/
def Env.procedure (env : Env) (g : Graph) : Procedure := Procedure.new env.facts env.options g

/-- How the transfer asks for summaries: through `summaryOf` when the analysis is
interprocedural, not at all otherwise. -/
def Env.lookup (env : Env) (summaryOf : MethodId → SessionM (Option UsageMap)) :
    Option (MethodId → SessionM (Option UsageMap)) :=
  if env.options.interprocedural then some summaryOf else none

/-- The answers the transfer gets from a table, as `Env.lookup` asks for them. -/
def Env.answers (env : Env) (answer : MethodId → Option UsageMap) : Option (MethodId → Option UsageMap) :=
  if env.options.interprocedural then some answer else none

/-- The block-visit budget of one procedure. -/
def Env.budget (env : Env) : Nat := env.options.maxIterations.toNat

/-- The visits the solve of a procedure may make: within the visit budget and, when a time
budget is set, before the clock of the solve passes it. -/
def Env.allowance (env : Env) (p : MethodId) : Nat :=
  Dataflow.allowance env.budget env.options.maxSeconds (env.facts.clock p)

/-- What the solver answers on the graph of a procedure, its transfer taken without effects:
`none` when the procedure has no graph or a malformed one, else the converged facts, or the
budget that ran out with the number of visits made. -/
def solveBody (env : Env) (p : MethodId) :
    Option (Except (Dataflow.Overrun × Nat) (Dataflow.Solution AnalysisState)) :=
  (env.facts.graph? p).bind fun g =>
    match g.validate (env.prog.methodRepr p) with
    | .error _ => none
    | .ok () =>
      some (Id.run (Dataflow.solveTimed g (env.procedure g).domain (fun b x => pure ((env.procedure g).flow b x))
        (env.procedure g).initialState env.budget env.options.maxSeconds (env.facts.clock p)))

/-- The converged facts of a procedure, when its graph is well formed and the solver converges
within its budgets. -/
def dataflowOf (env : Env) (p : MethodId) : Option (Dataflow.Solution AnalysisState) :=
  (solveBody env p).bind Except.toOption

/-- The solver answers on a procedure only with a well-formed graph, by the timed solve on it. -/
theorem solveBody_eq_some {env : Env} {p : MethodId}
    {res : Except (Dataflow.Overrun × Nat) (Dataflow.Solution AnalysisState)} (h : solveBody env p = some res) :
    ∃ g, env.facts.graph? p = some g ∧ g.validate (env.prog.methodRepr p) = .ok () ∧
      res = Id.run (Dataflow.solveTimed g (env.procedure g).domain (fun b x => pure ((env.procedure g).flow b x))
        (env.procedure g).initialState env.budget env.options.maxSeconds (env.facts.clock p)) := by
  unfold solveBody at h
  cases hg : env.facts.graph? p with
  | none => simp [hg] at h
  | some g =>
    rw [hg, Option.bind_some] at h
    cases hv : g.validate (env.prog.methodRepr p) with
    | error e => simp [hv] at h
    | ok u =>
      rw [hv] at h
      cases h
      exact ⟨g, rfl, hv, rfl⟩

/-- The answer of the solve with effects, in the transfer's monad, is the answer without. -/
theorem solve_run_fst (env : Env) (g : Graph) (f : MethodId → SessionM (Option UsageMap)) (n : Nat)
    (s : Session) :
    (((Dataflow.solve g (env.procedure g).domain ((env.procedure g).transfer (env.lookup f))
      (env.procedure g).initialState n).run {}).run s).1.1 =
      Id.run (Dataflow.solve g (env.procedure g).domain (fun b x => pure ((env.procedure g).flow b x))
        (env.procedure g).initialState n) := by
  apply Returns.run_fst
  rw [Dataflow.solve_factor _ ((env.procedure g).transfer_returns (env.lookup f))]
  exact Returns.bind_const fun _ => Returns.pure _

/-- A body's outcome, from any session and with any summary requests: the bare outcome of a
procedure that could not be analysed, when the solver has no converged answer; or the converged
answer, complete, with the hazards of a run of the solve within the procedure's allowance. -/
theorem analyzeBody_run (env : Env) (f : MethodId → SessionM (Option UsageMap)) (p : MethodId) (s : Session) :
    (dataflowOf env p = none ∧ ((analyzeBody env f p).run s).1 = { method := p }) ∨
      ∃ g sol log, env.facts.graph? p = some g ∧ dataflowOf env p = some sol ∧
        MonadAttach.CanReturn (((Dataflow.solve g (env.procedure g).domain
          ((env.procedure g).transfer (env.lookup f)) (env.procedure g).initialState (env.allowance p)).run {} :
            SessionM _)) (.ok sol, log) ∧
        ((analyzeBody env f p).run s).1 =
          { method := p, usages := UsageMap.ofLog env.prog log, complete := true, dataflow := some sol } := by
  unfold analyzeBody dataflowOf solveBody Env.procedure Env.lookup Env.allowance Env.budget
  cases hg : env.facts.graph? p with
  | none => exact .inl ⟨rfl, rfl⟩
  | some g =>
    simp only [Option.bind_some]
    cases hv : g.validate (env.prog.methodRepr p) with
    | error e => exact .inl ⟨rfl, rfl⟩
    | ok u =>
      cases u
      dsimp only
      rw [Dataflow.run_solveTimed_bind, StateT.run_bind]
      -- one run of the solve from the session, within the allowance; its answer is the answer
      -- without effects, and the timed solve only labels its error
      have hfst := solve_run_fst env g f (Dataflow.allowance env.options.maxIterations.toNat
        env.options.maxSeconds (env.facts.clock p)) s
      unfold Env.procedure Env.lookup at hfst
      rcases hout : (((Dataflow.solve g (Procedure.new env.facts env.options g).domain
          ((Procedure.new env.facts env.options g).transfer
            (if env.options.interprocedural then some f else none))
          (Procedure.new env.facts env.options g).initialState
          (Dataflow.allowance env.options.maxIterations.toNat env.options.maxSeconds
            (env.facts.clock p))).run {}).run s)
        with ⟨⟨res, log⟩, s'⟩
      rw [hout] at hfst
      dsimp only at hfst
      simp only [Dataflow.solveTimed, Id.run_map, ← hfst]
      cases res with
      | error n => exact .inl ⟨rfl, rfl⟩
      | ok sol => exact .inr ⟨g, sol, log, rfl, rfl, ⟨s, s', hout⟩, rfl⟩

end Analysis

/-- `r` is an outcome the body of `p` may have: it is `p`'s, complete exactly when the solver
converges on `p`'s graph, with the converged facts as its dataflow, and with no hazards when it
is incomplete. -/
structure Outcome.OfBody (env : Analysis.Env) (p : MethodId) (r : Outcome) : Prop where
  method : r.method = p
  dataflow : r.dataflow = Analysis.dataflowOf env p
  complete : r.complete = (Analysis.dataflowOf env p).isSome
  usages : r.complete = false → r.usages = {}

namespace Analysis

/-- Whatever its summary requests answer and whatever the session, a body's outcome is complete
exactly when the solver converges, carries the converged facts, and has no hazards otherwise. -/
theorem analyzeBody_ofBody (env : Env) (f : MethodId → SessionM (Option UsageMap)) (p : MethodId)
    (s : Session) : ((analyzeBody env f p).run s).1.OfBody env p := by
  rcases analyzeBody_run env f p s with ⟨hnone, hr⟩ | ⟨g, sol, log, -, hsol, -, hr⟩
  · rw [hr]
    exact ⟨rfl, hnone.symm, by rw [hnone]; rfl, fun _ => rfl⟩
  · rw [hr]
    exact ⟨rfl, hsol.symm, by rw [hsol]; rfl, fun h => nomatch h⟩

/-! ### Summaries only add hazards -/

/-- The parameters a body's outcome reports are those its transfer records, from the final
facts, with summaries answered from a table. -/
theorem mem_usages_iff (env : Env) {f : MethodId → SessionM (Option UsageMap)}
    {answer : MethodId → Option UsageMap} (hf : ∀ c, Returns (f c) (answer c)) (p : MethodId) (s : Session)
    {g : Graph} (hg : env.facts.graph? p = some g) {sol : Dataflow.Solution AnalysisState}
    (hsol : dataflowOf env p = some sol) (q : ParamRef) :
    q ∈ ((analyzeBody env f p).run s).1.usages.parameters ↔
      ∃ b x, sol.inAt b = some x ∧ q ∈ (env.procedure g).blockHazards (env.answers answer) b x := by
  rcases analyzeBody_run env f p s with ⟨hnone, -⟩ | ⟨g', sol', log, hg', hsol', hcan, hr⟩
  · rw [hsol] at hnone
    cases hnone
  · rw [hg] at hg'
    cases hg'
    rw [hsol] at hsol'
    cases hsol'
    rw [hr]
    have hfix : Option.Rel (fun lookup answer => ∀ c, Returns (lookup c) (answer c)) (env.lookup f)
        (env.answers answer) := by
      unfold Env.lookup Env.answers
      split
      · exact .some hf
      · exact .none
    exact (env.procedure g).mem_ofLog_iff_blockHazards hfix g (env.allowance p) hcan q

/-- With summaries consulted in the second run whenever they are in the first, and answers that
name fewer parameters in the first, the first's answers are below the second's. -/
theorem answersLe_of_le {env₁ env₂ : Env}
    (hi : env₁.options.interprocedural = true → env₂.options.interprocedural = true)
    {answer₁ answer₂ : MethodId → Option UsageMap}
    (hle : ∀ c, ∀ q ∈ (answer₁ c).elim [] UsageMap.parameters, q ∈ (answer₂ c).elim [] UsageMap.parameters) :
    AnswersLe (env₁.answers answer₁) (env₂.answers answer₂) := by
  intro c q hq
  unfold Env.answers answerParams at hq ⊢
  by_cases h₁ : env₁.options.interprocedural = true
  · rw [if_pos h₁] at hq
    rw [if_pos (hi h₁)]
    simp only [Option.bind_some] at hq ⊢
    cases ha₁ : answer₁ c with
    | none => rw [ha₁] at hq; cases hq
    | some u =>
      rw [ha₁] at hq
      have hq₂ := hle c q (by rw [ha₁]; exact hq)
      cases ha₂ : answer₂ c with
      | none => rw [ha₂] at hq₂; cases hq₂
      | some u' => rw [ha₂] at hq₂; exact hq₂
  · rw [if_neg h₁] at hq
    cases hq

/-- The converged facts do not depend on whether summaries are consulted. -/
theorem dataflowOf_interprocedural (facts : Facts) (o : Options) (i : Bool) (p : MethodId) :
    dataflowOf ⟨facts, { o with interprocedural := i }⟩ p = dataflowOf ⟨facts, o⟩ p :=
  rfl

/-- Nor do the hazards the transfer finds walking from a state, with given answers. -/
theorem walkHazards_interprocedural (facts : Facts) (o : Options) (i : Bool) (g : Graph)
    (answers : Option (MethodId → Option UsageMap)) :
    ∀ (steps : List (Operation × Bool)) (s : AnalysisState),
      (Env.procedure ⟨facts, { o with interprocedural := i }⟩ g).walkHazards answers s steps =
        (Env.procedure ⟨facts, o⟩ g).walkHazards answers s steps
  | [], _ => rfl
  | step :: steps, s => by
    unfold Procedure.walkHazards
    rw [walkHazards_interprocedural facts o i g answers steps]
    rfl

theorem blockHazards_interprocedural (facts : Facts) (o : Options) (i : Bool) (g : Graph)
    (answers : Option (MethodId → Option UsageMap)) (b : BlockId) (s : AnalysisState) :
    (Env.procedure ⟨facts, { o with interprocedural := i }⟩ g).blockHazards answers b s =
      (Env.procedure ⟨facts, o⟩ g).blockHazards answers b s :=
  walkHazards_interprocedural facts o i g answers _ s

/-- Options that agree except on whether summaries are consulted give the same converged facts. -/
theorem dataflowOf_eq_of_agree {o₁ o₂ : Options}
    (ho : { o₁ with interprocedural := true } = { o₂ with interprocedural := true }) (facts : Facts)
    (p : MethodId) : dataflowOf ⟨facts, o₁⟩ p = dataflowOf ⟨facts, o₂⟩ p := by
  rw [← dataflowOf_interprocedural facts o₁ true, ho, dataflowOf_interprocedural]

/-- and the same hazards from a state, with given answers. -/
theorem blockHazards_eq_of_agree {o₁ o₂ : Options}
    (ho : { o₁ with interprocedural := true } = { o₂ with interprocedural := true }) (facts : Facts)
    (g : Graph) (answers : Option (MethodId → Option UsageMap)) (b : BlockId) (s : AnalysisState) :
    (Env.procedure ⟨facts, o₁⟩ g).blockHazards answers b s = (Env.procedure ⟨facts, o₂⟩ g).blockHazards answers b s := by
  rw [← blockHazards_interprocedural facts o₁ true, ho, blockHazards_interprocedural]

/-- Callee summaries only add hazards and never change the dataflow. -/
theorem summaries_only_add_hazards (facts : Facts) (o₁ o₂ : Options)
    (ho : { o₁ with interprocedural := true } = { o₂ with interprocedural := true })
    (hi : o₁.interprocedural = true → o₂.interprocedural = true) (p : MethodId)
    (f₁ f₂ : MethodId → SessionM (Option UsageMap)) (answer₁ answer₂ : MethodId → Option UsageMap)
    (h₁ : ∀ c, Returns (f₁ c) (answer₁ c)) (h₂ : ∀ c, Returns (f₂ c) (answer₂ c))
    (hle : ∀ c, ∀ q ∈ (answer₁ c).elim [] UsageMap.parameters, q ∈ (answer₂ c).elim [] UsageMap.parameters)
    (s₁ s₂ : Session) :
    ((analyzeBody ⟨facts, o₁⟩ f₁ p).run s₁).1.dataflow = ((analyzeBody ⟨facts, o₂⟩ f₂ p).run s₂).1.dataflow ∧
      ((analyzeBody ⟨facts, o₁⟩ f₁ p).run s₁).1.complete = ((analyzeBody ⟨facts, o₂⟩ f₂ p).run s₂).1.complete ∧
      ∀ q ∈ ((analyzeBody ⟨facts, o₁⟩ f₁ p).run s₁).1.usages.parameters,
        q ∈ ((analyzeBody ⟨facts, o₂⟩ f₂ p).run s₂).1.usages.parameters := by
  have hb₁ := analyzeBody_ofBody ⟨facts, o₁⟩ f₁ p s₁
  have hb₂ := analyzeBody_ofBody ⟨facts, o₂⟩ f₂ p s₂
  have hsame := dataflowOf_eq_of_agree ho facts p
  refine ⟨hb₁.dataflow.trans (hsame ▸ hb₂.dataflow.symm), hb₁.complete.trans (hsame ▸ hb₂.complete.symm),
    fun q hq => ?_⟩
  cases hsol : dataflowOf ⟨facts, o₁⟩ p with
  | none =>
    -- an incomplete first outcome reports nothing
    have hempty := hb₁.usages (by rw [hb₁.complete, hsol]; rfl)
    rw [hempty] at hq
    cases hq
  | some sol =>
    obtain ⟨res, hres, -⟩ := Option.bind_eq_some_iff.mp
      (show (solveBody ⟨facts, o₁⟩ p).bind Except.toOption = some sol from hsol)
    obtain ⟨g, hg, -, -⟩ := solveBody_eq_some hres
    replace hg : facts.graph? p = some g := hg
    -- the same final facts, and what the first run finds from them the second finds too
    obtain ⟨b, x, hx, hqb⟩ := (mem_usages_iff _ h₁ p s₁ hg hsol q).mp hq
    refine (mem_usages_iff _ h₂ p s₂ hg (hsame ▸ hsol) q).mpr ⟨b, x, hx, ?_⟩
    rw [← blockHazards_eq_of_agree ho facts]
    exact Procedure.mem_blockHazards_of_answersLe (answersLe_of_le hi hle) b x hqb

/-- `f` analysed once without summaries and once with every callee's summary naming `x`. -/
theorem summaries_only_add_hazards_readLoop :
    ({ ({ interprocedural := false } : Options) with interprocedural := true } =
        { ({} : Options) with interprocedural := true }) ∧
      (({ interprocedural := false } : Options).interprocedural = true → ({} : Options).interprocedural = true) ∧
      (∀ _ : MethodId, Returns (pure none : SessionM (Option UsageMap)) none) ∧
      (∀ _ : MethodId, Returns (pure (some ⟨[(⟨0, 0⟩, none)]⟩) : SessionM (Option UsageMap)) (some ⟨[(⟨0, 0⟩, none)]⟩)) ∧
      (∀ _ : MethodId, ∀ q ∈ (none : Option UsageMap).elim [] UsageMap.parameters,
        q ∈ (some (⟨[(⟨0, 0⟩, none)]⟩ : UsageMap)).elim [] UsageMap.parameters) ∧
      ((analyzeBody ⟨oneParamFacts.register readLoopGraph, { interprocedural := false }⟩ (fun _ => pure none) 0).run
          {}).1.dataflow =
        ((analyzeBody ⟨oneParamFacts.register readLoopGraph, {}⟩ (fun _ => pure (some ⟨[(⟨0, 0⟩, none)]⟩)) 0).run
          {}).1.dataflow ∧
      ((analyzeBody ⟨oneParamFacts.register readLoopGraph, { interprocedural := false }⟩ (fun _ => pure none) 0).run
          {}).1.complete =
        ((analyzeBody ⟨oneParamFacts.register readLoopGraph, {}⟩ (fun _ => pure (some ⟨[(⟨0, 0⟩, none)]⟩)) 0).run
          {}).1.complete ∧
      ∀ q ∈ ((analyzeBody ⟨oneParamFacts.register readLoopGraph, { interprocedural := false }⟩ (fun _ => pure none)
          0).run {}).1.usages.parameters,
        q ∈ ((analyzeBody ⟨oneParamFacts.register readLoopGraph, {}⟩ (fun _ => pure (some ⟨[(⟨0, 0⟩, none)]⟩))
          0).run {}).1.usages.parameters :=
  ⟨rfl, fun h => (nomatch h), fun _ => Returns.pure _, fun _ => Returns.pure _, fun _ _ hq => (nomatch hq),
    summaries_only_add_hazards (oneParamFacts.register readLoopGraph) { interprocedural := false } {} rfl
      (fun h => nomatch h) 0 (fun _ => pure none) (fun _ => pure (some ⟨[(⟨0, 0⟩, none)]⟩)) (fun _ => none)
      (fun _ => some ⟨[(⟨0, 0⟩, none)]⟩) (fun _ => Returns.pure _) (fun _ => Returns.pure _)
      (fun _ _ hq => nomatch hq) {} {}⟩

end Analysis

end NullGuard
