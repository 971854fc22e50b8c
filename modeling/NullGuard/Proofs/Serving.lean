import NullGuard.Proofs.CallChain
import NullGuard.Proofs.Outcome
import NullGuard.Proofs.Budget

/-!
# How a request for an outcome is served

A request for the outcome of a procedure is refused when the procedure is on the call chain,
served from the cache when an outcome is stored, refused again when the procedure is claimed
but not on the chain, and otherwise computed: the procedure is claimed and entered, its body is
analysed with its own summary requests, and it is left again, its outcome stored unless it was
marked as cut off (`Analysis.run_resultOf_succ`).

Most facts about requests are invariants of the session that every step of this keeps, and a
body keeps whatever its summary requests keep (`Analysis.analyzeBody_keeps`). Three of them hold of
every request, on every program:

* the call chain a request leaves is the one it found (`Analysis.resultOf_chain`);
* the claims of the cache are the call chain, last entered first (`Analysis.resultOf_claims`);
* every outcome the cache stores for a procedure is one its body may have
  (`Analysis.resultOf_storesBodies`, with `Outcome.OfBody`).

`Analysis.failures_are_approximations` puts them together for a request from outside.
-/

namespace NullGuard

namespace Session

/-- The session in which a procedure's body is analysed: the procedure claimed in the cache
and put on the call chain, its cut-off mark cleared. -/
def opened (s : Session) (X : MethodId) : Session :=
  { cache := { s.cache with claims := X :: s.cache.claims, misses := s.cache.misses + 1 },
    chain := s.chain ++ [X], cutOff := s.cutOff.erase X }

/-- The session after a body with outcome `r`: the procedure taken off the chain, its claim
settled with `r`, kept unless the procedure was marked as cut off. -/
def closed (t : Session) (X : MethodId) (r : Outcome) : Session :=
  { cache := t.cache.settle X (if t.cutOff.contains X then .transient (some r) else .keep (some r)),
    chain := t.chain.dropLast, cutOff := t.cutOff.erase X }

@[simp] theorem chain_opened (s : Session) (X : MethodId) : (s.opened X).chain = s.chain ++ [X] := rfl

@[simp] theorem claims_opened (s : Session) (X : MethodId) :
    (s.opened X).cache.claims = X :: s.cache.claims := rfl

@[simp] theorem chain_closed (t : Session) (X : MethodId) (r : Outcome) :
    (t.closed X r).chain = t.chain.dropLast := rfl

end Session

namespace Analysis

variable (env : Env)

/-- One level of the recursion behind outcomes: a request is refused for a procedure on the
chain, served from the cache, refused for a procedure claimed off the chain, or computed by
analysing the body in the opened session. -/
theorem run_resultOf_succ (n : Nat) (X : MethodId) (s : Session) :
    (resultOf env (n + 1) X).run s =
      if X ∈ s.chain then (none, s)
      else match s.cache.get? X with
        | some v => (v, { s with cache := { s.cache with hits := s.cache.hits + 1 } })
        | none =>
          if X ∈ s.cache.claims then
            (none, { s with cache := { s.cache with cycleDefaults := s.cache.cycleDefaults + 1 } })
          else
            ((some ((analyzeBody env (summaryOf env (resultOf env n)) X).run (s.opened X)).1),
              ((analyzeBody env (summaryOf env (resultOf env n)) X).run (s.opened X)).2.closed X
                ((analyzeBody env (summaryOf env (resultOf env n)) X).run (s.opened X)).1) := by
  unfold resultOf
  simp only [StateT.run_bind, StateT.run_get, pure_bind]
  by_cases hX : X ∈ s.chain
  · simp [hX]
    rfl
  · rw [if_neg (by simpa using hX), if_neg hX]
    cases hg : s.cache.get? X with
    | some v => exact run_getOrCompute_stored s X none _ hg
    | none =>
      by_cases hcl : X ∈ s.cache.claims
      · rw [if_pos hcl]
        simp [SummaryCache.getOrCompute, SummaryCache.lookup, hg, hcl]
        rfl
      · rw [if_neg hcl]
        rcases hbody : (analyzeBody env (summaryOf env (resultOf env n)) X).run (s.opened X) with ⟨r, t⟩
        -- the computation enters, analyses the body, reads the mark, and leaves
        have hcomp : (do
            enter X
            let r ← analyzeBody env (summaryOf env (resultOf env n)) X
            let cut := (← get).cutOff.contains X
            leave X
            pure (if cut then Computed.transient (some r) else .keep (some r)) : SessionM _).run
              { s with cache := { s.cache with claims := X :: s.cache.claims, misses := s.cache.misses + 1 } } =
            (if t.cutOff.contains X then Computed.transient (some r) else .keep (some r),
              { t with chain := t.chain.dropLast, cutOff := t.cutOff.erase X }) := by
          simp only [StateT.run_bind, enter, leave, StateT.run_modify, pure_bind, StateT.run_get,
            StateT.run_pure]
          have hbody' : (analyzeBody env (summaryOf env (resultOf env n)) X).run
              { cache := { s.cache with claims := X :: s.cache.claims, misses := s.cache.misses + 1 },
                chain := s.chain ++ [X], cutOff := s.cutOff.erase X } = (r, t) := hbody
          rw [hbody']
          rfl
        rw [run_getOrCompute_claimed s X none _ hg hcl hcomp]
        simp only [Session.closed]
        split <;> rfl

/-- The session a request with fuel left leaves: the one it found, its chain, claims and stored
outcomes untouched, or, when it computes its procedure, the body's session closed with the
body's outcome. -/
theorem run_resultOf_succ_session (n : Nat) (X : MethodId) (s : Session) :
    (((resultOf env (n + 1) X).run s).2.chain = s.chain ∧
      ((resultOf env (n + 1) X).run s).2.cache.claims = s.cache.claims ∧
      ((resultOf env (n + 1) X).run s).2.cache.store = s.cache.store) ∨
    (X ∉ s.chain ∧ s.cache.get? X = none ∧ X ∉ s.cache.claims ∧
      ((resultOf env (n + 1) X).run s).2 =
        ((analyzeBody env (summaryOf env (resultOf env n)) X).run (s.opened X)).2.closed X
          ((analyzeBody env (summaryOf env (resultOf env n)) X).run (s.opened X)).1) := by
  rw [run_resultOf_succ]
  by_cases hX : X ∈ s.chain
  · rw [if_pos hX]
    exact .inl ⟨rfl, rfl, rfl⟩
  · rw [if_neg hX]
    cases hg : s.cache.get? X with
    | some v => exact .inl ⟨rfl, rfl, rfl⟩
    | none =>
      by_cases hcl : X ∈ s.cache.claims
      · rw [if_pos hcl]
        exact .inl ⟨rfl, rfl, rfl⟩
      · rw [if_neg hcl]
        exact .inr ⟨hX, rfl, hcl, rfl⟩

/-! ### What every request keeps -/

/-- A body keeps an invariant of the session that each of its summary requests keeps. -/
theorem analyzeBody_keeps (I : Session → Prop) (f : MethodId → SessionM (Option UsageMap)) (p : MethodId)
    (hf : ∀ c s, I s → I ((f c).run s).2) (s : Session) (hs : I s) : I ((analyzeBody env f p).run s).2 := by
  have h := analyzeBody_answersAs (I := I) (P := fun _ => True) env f f p fun _ _ _ c _ s _ hs _ s' _ _ hz _ =>
    ⟨by have := hf c s hs; rwa [hz] at this, fun _ => trivial, fun h => absurd trivial h⟩
  exact (h s s hs _ _ _ _ rfl rfl).1

/-- A summary request keeps an invariant that cut-off marks keep, and that the requests it
passes on to `resolve` keep. -/
theorem summaryOf_keeps (I : Session → Prop) (resolve : MethodId → SessionM (Option Outcome))
    (hcut : ∀ s, I s → I { s with cutOff := s.cutOff ++ s.chain.filter (!s.cutOff.contains ·) })
    (hres : ∀ c s, I s → I ((resolve c).run s).2) (c : MethodId) (s : Session) (hs : I s) :
    I ((summaryOf env resolve c).run s).2 := by
  cases hsum : isSummarizable env c with
  | false => rwa [run_summaryOf_of_not env resolve c s hsum]
  | true =>
    by_cases hlong : (s.chain.length : Int) > env.options.maxCallChain
    · by_cases hstored : ∃ r, s.cache.get? c = some (some r)
      · obtain ⟨r, hr⟩ := hstored
        rwa [run_summaryOf_stored env resolve c s hsum hlong hr]
      · rw [run_summaryOf_cut env resolve c s hsum hlong fun r hr => hstored ⟨r, hr⟩]
        exact hcut s hs
    · rcases hrun : (resolve c).run s with ⟨o, s'⟩
      rw [run_summaryOf_resolve env resolve c s hsum hlong hrun]
      have := hres c s hs
      rwa [hrun] at this

/-- A request leaves the call chain as it found it, on every program: entering and leaving a
procedure are paired around its body, whose own requests restore the chain. -/
theorem resultOf_chain : ∀ (n : Nat) (X : MethodId) (s : Session), ((resultOf env n X).run s).2.chain = s.chain
  | 0, _, _ => rfl
  | n + 1, X, s => by
    rcases run_resultOf_succ_session env n X s with ⟨h, -, -⟩ | ⟨-, -, -, h⟩
    · exact h
    · have hbody := analyzeBody_keeps env (fun t => t.chain = s.chain ++ [X]) _ X
        (summaryOf_keeps env (fun t => t.chain = s.chain ++ [X]) _ (fun _ h => h)
          fun c t ht => (resultOf_chain n c t).trans ht) (s.opened X) rfl
      rw [h, Session.chain_closed, hbody, List.dropLast_concat]

/-- The claims of a session are its call chain, last entered first: a procedure is claimed
when it is entered and released when it is left. Every request keeps this, on every program. -/
theorem resultOf_claims : ∀ (n : Nat) (X : MethodId) (s : Session), s.cache.claims = s.chain.reverse →
    ((resultOf env n X).run s).2.cache.claims = s.chain.reverse
  | 0, _, _, hs => hs
  | n + 1, X, s, hs => by
    rcases run_resultOf_succ_session env n X s with ⟨-, h, -⟩ | ⟨-, -, -, h⟩
    · rw [h, hs]
    · -- inside the body the chain has `X` last and the claims `X` first
      let I := fun t : Session => t.chain = s.chain ++ [X] ∧ t.cache.claims = t.chain.reverse
      have hbody := analyzeBody_keeps env I _ X
        (summaryOf_keeps env I _ (fun _ h => h) fun c t ht =>
          ⟨(resultOf_chain env n c t).trans ht.1, (resultOf_claims n c t ht.2).trans
            (by rw [resultOf_chain])⟩)
        (s.opened X) ⟨rfl, by simp [hs]⟩
      rw [h, Session.closed, SummaryCache.claims_settle, hbody.2, hbody.1]
      simp

/-- Every outcome the cache stores for a procedure is one its body may have. -/
def StoresBodies (c : OutcomeCache) : Prop :=
  ∀ X v, c.get? X = some v → ∃ r, v = some r ∧ r.OfBody env X

/-- Every request keeps the stored outcomes ones their bodies may have, on every program: the
only outcome a request stores is the one it computed for its procedure's body. -/
theorem resultOf_storesBodies : ∀ (n : Nat) (X : MethodId) (s : Session), StoresBodies env s.cache →
    StoresBodies env ((resultOf env n X).run s).2.cache
  | 0, _, _, hs => hs
  | n + 1, X, s, hs => by
    rcases run_resultOf_succ_session env n X s with ⟨-, -, h⟩ | ⟨-, -, -, h⟩
    · intro Y v hv
      exact hs Y v (by unfold SummaryCache.get? at hv ⊢; rwa [h] at hv)
    · -- the body's requests keep the store sound, and its own outcome is a body outcome
      have hbody := analyzeBody_keeps env (fun t => StoresBodies env t.cache) _ X
        (summaryOf_keeps env (fun t => StoresBodies env t.cache) _ (fun _ h => h)
          fun c t ht => resultOf_storesBodies n c t ht) (s.opened X) hs
      intro Y v hv
      rw [h] at hv
      rcases SummaryCache.get?_settle_cases _ _ _ _ hv with hv | ⟨rfl, hkeep⟩
      · exact hbody Y v hv
      · split at hkeep
        · cases hkeep
        · cases hkeep
          exact ⟨_, rfl, analyzeBody_ofBody env _ Y (s.opened Y)⟩

/-! ### A request from outside -/

/-- A procedure's converged facts are missing exactly when it has no graph, its graph is
malformed, or the solver runs out of its visit budget or of its time budget on it. -/
theorem dataflowOf_eq_none_iff (P : MethodId) :
    dataflowOf env P = none ↔ env.facts.graph? P = none ∨
      (∃ g e, env.facts.graph? P = some g ∧ g.validate (env.prog.methodRepr P) = .error e) ∨
        (∃ n, solveBody env P = some (.error (.iterations, n))) ∨
          ∃ n, solveBody env P = some (.error (.time, n)) := by
  unfold dataflowOf
  cases hb : solveBody env P with
  | none =>
    unfold solveBody at hb
    cases hg : env.facts.graph? P with
    | none => simp
    | some g =>
      rw [hg] at hb
      cases hv : g.validate (env.prog.methodRepr P) with
      | error e => simp [hv]
      | ok u => simp [hv] at hb
  | some res =>
    -- with an answer, the graph is there and well formed
    obtain ⟨g, hg, hv, -⟩ := solveBody_eq_some hb
    cases res with
    | error n =>
      obtain ⟨o, k⟩ := n
      cases o <;> simp [hg, Except.toOption]
    | ok sol => simp [hg, hv, Except.toOption]

theorem dataflowOf_eq_some_iff (P : MethodId) (sol : Dataflow.Solution AnalysisState) :
    dataflowOf env P = some sol ↔ solveBody env P = some (.ok sol) := by
  unfold dataflowOf
  rcases solveBody env P with _ | _ | sol' <;> simp [Except.toOption]

/-- A request for a procedure claimed only while on the chain, with fuel left, is refused
because the procedure is on the chain, or answers an outcome its body may have. -/
theorem resultOf_ofBody (n : Nat) (X : MethodId) (s : Session) (hs : StoresBodies env s.cache)
    (hclaim : X ∈ s.cache.claims → X ∈ s.chain) :
    (X ∈ s.chain ∧ ((resultOf env (n + 1) X).run s).1 = none) ∨
      ∃ r, ((resultOf env (n + 1) X).run s).1 = some r ∧ r.OfBody env X := by
  rw [run_resultOf_succ]
  by_cases hX : X ∈ s.chain
  · rw [if_pos hX]
    exact .inl ⟨hX, rfl⟩
  · rw [if_neg hX]
    cases hg : s.cache.get? X with
    | some v =>
      obtain ⟨r, rfl, hr⟩ := hs X v hg
      exact .inr ⟨r, rfl, hr⟩
    | none =>
      rw [if_neg fun hcl => hX (hclaim hcl)]
      exact .inr ⟨_, rfl, analyzeBody_ofBody env _ X _⟩

theorem analyze_run (P : MethodId) (s : Session) :
    (analyze env P).run s =
      (((resultOf env (env.facts.graphs.length + 1) P).run s).1.getD { method := P },
        ((resultOf env (env.facts.graphs.length + 1) P).run s).2) := by
  unfold analyze
  simp only [StateT.run_bind]
  rcases (resultOf env (env.facts.graphs.length + 1) P).run s with ⟨_ | r, s'⟩ <;> rfl

/-- A run answers an error exactly when its options are rejected: nothing else fails. -/
theorem runOne_error_iff (facts : Facts) (spec : RunSpec) (c : OutcomeCache) (e : OptionError) :
    (runOne facts spec c).1 = .error e ↔ optionsOf spec.options = .error e := by
  unfold runOne
  cases optionsOf spec.options with
  | error e' => simp
  | ok o => simp

/-- Failures are approximations, never partial results. -/
theorem failures_are_approximations (P : MethodId) (s : Session) (hs : StoresBodies env s.cache)
    (hclaim : P ∈ s.cache.claims → P ∈ s.chain) :
    ((analyze env P).run s).1.method = P ∧
      (((analyze env P).run s).1.complete = false ↔ P ∈ s.chain ∨ env.facts.graph? P = none ∨
        (∃ g e, env.facts.graph? P = some g ∧ g.validate (env.prog.methodRepr P) = .error e) ∨
          (∃ n, solveBody env P = some (.error (.iterations, n))) ∨
          ∃ n, solveBody env P = some (.error (.time, n))) ∧
      (((analyze env P).run s).1.complete = false →
        ((analyze env P).run s).1.usages = {} ∧ ((analyze env P).run s).1.dataflow = none) ∧
      (((analyze env P).run s).1.complete = true →
        ∃ sol, solveBody env P = some (.ok sol) ∧ ((analyze env P).run s).1.dataflow = some sol) ∧
      StoresBodies env ((analyze env P).run s).2.cache ∧ ((analyze env P).run s).2.chain = s.chain ∧
      (s.cache.claims = s.chain.reverse → ((analyze env P).run s).2.cache.claims = s.chain.reverse) ∧
      ∀ (spec : RunSpec) (c : OutcomeCache) (e : OptionError),
        (runOne env.facts spec c).1 = .error e ↔ optionsOf spec.options = .error e := by
  rw [analyze_run]
  refine ⟨?_, ?_, ?_, ?_, resultOf_storesBodies env _ P s hs, resultOf_chain env _ P s,
    resultOf_claims env _ P s, runOne_error_iff env.facts⟩
  all_goals rcases resultOf_ofBody env _ P s hs hclaim with ⟨hX, hnone⟩ | ⟨r, hr, hbody⟩
  -- refused on the chain: the bare outcome
  all_goals try rw [hnone]
  -- answered: an outcome the body may have
  all_goals try rw [hr]
  · rfl
  · exact hbody.method
  · simp [hX]
  · dsimp only [Option.getD_some]
    rw [hbody.complete, ← dataflowOf_eq_none_iff, Option.isSome_eq_false_iff, Option.isNone_iff_eq_none]
    -- off the chain, since an answered request was not refused
    refine ⟨fun h => .inr h, fun h => h.elim (fun hX => ?_) id⟩
    rw [run_resultOf_succ, if_pos hX] at hr
    cases hr
  · exact fun _ => ⟨rfl, rfl⟩
  · intro hc
    dsimp only [Option.getD_some] at hc ⊢
    rw [hbody.complete, Option.isSome_eq_false_iff, Option.isNone_iff_eq_none] at hc
    exact ⟨hbody.usages (by rw [hbody.complete, hc]; rfl), hbody.dataflow.trans hc⟩
  · intro hc
    cases hc
  · intro hc
    dsimp only [Option.getD_some] at hc ⊢
    rw [hbody.complete, Option.isSome_iff_exists] at hc
    obtain ⟨sol, hsol⟩ := hc
    exact ⟨sol, (dataflowOf_eq_some_iff env P sol).mp hsol, hbody.dataflow.trans hsol⟩

/-- Analysing `f` from a fresh session answers an outcome of `f` and leaves a cache storing
only body outcomes. -/
theorem failures_are_approximations_readLoop :
    StoresBodies readLoopEnv ({} : Session).cache ∧
      ((analyze readLoopEnv 0).run {}).1.method = 0 ∧
        StoresBodies readLoopEnv ((analyze readLoopEnv 0).run {}).2.cache :=
  have hs : StoresBodies readLoopEnv ({} : Session).cache := fun _ _ h => nomatch h
  have h := failures_are_approximations readLoopEnv 0 {} hs fun h => nomatch h
  ⟨hs, h.1, h.2.2.2.2.1⟩

/-- The facts of `f` with a clock that reads one microsecond more at each visit, from one. -/
def tickingFacts : Facts :=
  { readLoopEnv.facts with clock := fun _ k => Binary64.ofScientific false (k + 1) (-6) }

/-- The options of the mapping that sets the time budget to `1e-300` seconds. -/
def tinyTimeBudget : Options := { maxSeconds := some (Binary64.ofScientific false 1 (-300)) }

/-- A time budget of `1e-300` seconds leaves the analysis of `f` incomplete, though it converges in
four visits without one. -/
theorem analyze_incomplete_on_time :
    optionsOf (some [("max_seconds", .real (Binary64.ofScientific false 1 (-300)))]) = .ok tinyTimeBudget ∧
      0 ∉ ({} : Session).chain ∧ tickingFacts.graph? 0 = some readLoopGraph ∧
      readLoopGraph.validate (tickingFacts.program.methodRepr 0) = .ok () ∧
      dataflowOf ⟨tickingFacts, { tinyTimeBudget with maxSeconds := none }⟩ 0 = some readLoopSolution ∧
      ((analyze ⟨tickingFacts, tinyTimeBudget⟩ 0).run {}).1.complete = false ∧
      solveBody ⟨tickingFacts, tinyTimeBudget⟩ 0 = some (.error (.time, 0)) := by
  have hopt : optionsOf (some [("max_seconds", .real (Binary64.ofScientific false 1 (-300)))]) =
      .ok tinyTimeBudget := by
    have h : (optionsOf (some [("max_seconds", .real (Binary64.ofScientific false 1 (-300)))])).toOption =
        some tinyTimeBudget := by
      decide +kernel
    cases hr : optionsOf (some [("max_seconds", .real (Binary64.ofScientific false 1 (-300)))]) with
    | error e => rw [hr] at h; cases h
    | ok o => rw [hr] at h; cases h; rfl
  have hgraph : tickingFacts.graph? 0 = some readLoopGraph := rfl
  have hvalid : readLoopGraph.validate (tickingFacts.program.methodRepr 0) = .ok () := rfl
  -- the clock reads a microsecond before the first visit, past the limit: no visit is allowed
  have hlate : (tinyTimeBudget.maxSeconds.any fun s => s.lt (tickingFacts.clock 0 0)) = true := by
    decide +kernel
  have hallow : Dataflow.allowance tinyTimeBudget.maxIterations.toNat tinyTimeBudget.maxSeconds
      (tickingFacts.clock 0) = 0 :=
    Dataflow.allowance_eq_iff.mpr ⟨Nat.zero_le _, fun j hj => absurd hj (Nat.not_lt_zero j), fun _ => hlate⟩
  have htime : solveBody ⟨tickingFacts, tinyTimeBudget⟩ 0 = some (.error (.time, 0)) := by
    unfold solveBody
    dsimp only [Env.budget, Env.prog]
    rw [hgraph, Option.bind_some, hvalid]
    dsimp only
    rw [Dataflow.solveTimed_pure, hallow]
    rfl
  have hnone : dataflowOf ⟨tickingFacts, tinyTimeBudget⟩ 0 = none := by
    rw [dataflowOf, htime]
    rfl
  -- off the chain, the request answers an outcome of the body, which has no converged facts
  have hincomplete : ((analyze ⟨tickingFacts, tinyTimeBudget⟩ 0).run {}).1.complete = false := by
    rw [analyze_run]
    rcases resultOf_ofBody _ _ 0 {} (fun _ _ h => nomatch h) (fun h => nomatch h) with ⟨hX, -⟩ | ⟨r, hr, hbody⟩
    · exact absurd hX (fun h => nomatch h)
    · rw [hr]
      exact hbody.complete.trans (by rw [hnone]; rfl)
  refine ⟨hopt, (fun h => nomatch h), hgraph, hvalid, ?_, hincomplete, htime⟩
  with_unfolding_all rfl

end Analysis

end NullGuard
