import NullGuard.Proofs.Serving

/-!
# The recursion of the interprocedural analysis

A request for the outcome of a procedure analyses its body, and the body asks for the
summaries of its callees, which may request the outcomes of further procedures, the procedure
itself among them. This file says which requests a body makes and shows that the recursion is
well founded on every program.

* `AsksFor f cs x`: run from any hazard log, `x` changes the session as asking `f` for the
  summaries of `cs`, in order, does. Each construct of the transfer has its lemma, and the
  analysis of a body asks for `Analysis.bodyRequests`: at each visit of the solve, the callees
  of the visited block that consult a summary (`Analysis.analyzeBody_asks`).
* `Analysis.Makes`: the requests a request makes, itself included, one level down for each
  summary request that qualifies for a summary within the call-chain limit.
* `Analysis.recursion_terminates`: from a request from outside, every request made has fuel
  left, so the fuel never cuts the recursion short, and every procedure entered makes a call
  chain without repeats, no longer than the call-chain limit plus one, nor than the number of
  procedures that can be analysed.
-/

namespace NullGuard

/-- The session after asking `f` for the summaries of `cs`, in order. -/
def Session.follow (s : Session) (f : MethodId → SessionM (Option UsageMap)) (cs : List MethodId) :
    Session :=
  cs.foldl (fun u c => ((f c).run u).2) s

@[simp] theorem Session.follow_nil (s : Session) (f : MethodId → SessionM (Option UsageMap)) :
    s.follow f [] = s := rfl

@[simp] theorem Session.follow_append (s : Session) (f : MethodId → SessionM (Option UsageMap))
    (cs ds : List MethodId) : s.follow f (cs ++ ds) = (s.follow f cs).follow f ds :=
  List.foldl_append

/-- Run from any hazard log, `x` changes the session as asking `f` for the summaries of `cs`, in
order, does. -/
def AsksFor {α : Type} (f : MethodId → SessionM (Option UsageMap)) (cs : List MethodId)
    (x : VisitM SessionM α) : Prop :=
  ∀ log s, ((x.run log).run s).2 = s.follow f cs

namespace AsksFor

variable {α β : Type} {f : MethodId → SessionM (Option UsageMap)} {cs ds : List MethodId}

theorem congr {x : VisitM SessionM α} (h : cs = ds) (hx : AsksFor f cs x) : AsksFor f ds x :=
  h ▸ hx

theorem pure (a : α) : AsksFor f [] (Pure.pure a : VisitM SessionM α) :=
  fun _ _ => rfl

theorem bind {x : VisitM SessionM α} {k : α → VisitM SessionM β} (hx : AsksFor f cs x)
    (hk : ∀ a, AsksFor f ds (k a)) : AsksFor f (cs ++ ds) (x >>= k) := by
  intro log s
  rw [Session.follow_append, ← hx log s, ← hk _ ((x.run log).run s).1.2 ((x.run log).run s).2]
  rfl

theorem map {x : VisitM SessionM α} (hx : AsksFor f cs x) (g : α → β) : AsksFor f cs (g <$> x) := by
  rw [map_eq_pure_bind]
  exact (hx.bind fun _ => pure _).congr (List.append_nil cs)

theorem ite (c : Prop) [Decidable c] {x y : VisitM SessionM α} (hx : AsksFor f cs x) (hy : AsksFor f ds y) :
    AsksFor f (if c then cs else ds) (if c then x else y) := by
  by_cases hc : c
  · simpa only [if_pos hc] using hx
  · simpa only [if_neg hc] using hy

theorem get : AsksFor f [] (MonadState.get : VisitM SessionM HazardLog) :=
  fun _ _ => rfl

theorem modify (g : HazardLog → HazardLog) : AsksFor f [] (modify g : VisitM SessionM PUnit) :=
  fun _ _ => rfl

/-- A summary request asks for one summary. -/
theorem lift (c : MethodId) : AsksFor f [c] (liftM (f c) : VisitM SessionM (Option UsageMap)) :=
  fun _ _ => rfl

theorem forM {γ : Type} (g : γ → VisitM SessionM PUnit) (cf : γ → List MethodId) :
    ∀ (l : List γ), (∀ a ∈ l, AsksFor f (cf a) (g a)) → AsksFor f (l.flatMap cf) (l.forM g)
  | [], _ => pure PUnit.unit
  | a :: l, hg => by
    rw [show (a :: l).forM g = (g a >>= fun _ => l.forM g) from rfl, List.flatMap_cons]
    exact (hg a List.mem_cons_self).bind fun _ =>
      forM g cf l fun a' ha' => hg a' (List.mem_cons_of_mem _ ha')

/-- A loop whose passes ask for nothing asks for nothing. -/
theorem forIn_nil {γ ρ : Type} (g : γ → ρ → VisitM SessionM (ForInStep ρ))
    (hg : ∀ a b, AsksFor f [] (g a b)) : ∀ (l : List γ) (b : ρ), AsksFor f [] (forIn l b g)
  | [], b => pure b
  | a :: l, b => by
    rw [List.forIn_cons]
    refine ((hg a b).bind fun r => ?_).congr (List.append_nil [])
    cases r with
    | done b' => exact pure b'
    | yield b' => exact forIn_nil g hg l b'

theorem foldlM {γ : Type} (g : α → γ → VisitM SessionM α) (cf : γ → List MethodId)
    (hg : ∀ a e, AsksFor f (cf e) (g a e)) : ∀ (l : List γ) (a : α), AsksFor f (l.flatMap cf) (l.foldlM g a)
  | [], a => pure a
  | e :: l, a => by
    rw [List.foldlM_cons, List.flatMap_cons]
    exact (hg a e).bind fun a' => foldlM g cf hg l a'

end AsksFor

/-! ### The summaries a body asks for -/

namespace Procedure

variable (v : Procedure)

/-- The callees whose summaries a visit of a step asks for, when summaries are consulted: a
nested function always, another callee when a call of it consults its summary. -/
def asksAt (step : Operation × Bool) : List MethodId :=
  match step.1.kind, step.1.info.method with
  | .invocation, some callee =>
    if v.prog.isNested callee || v.consultsSummary callee step.1.arguments then [callee] else []
  | .objectCreation, some callee => if v.consultsSummary callee step.1.arguments then [callee] else []
  | _, _ => []

variable {v} {f : MethodId → SessionM (Option UsageMap)}

theorem record_asks (site : Option Span) (ls : List Location) :
    AsksFor f [] (record site ls : VisitM SessionM Unit) := by
  unfold record
  refine (AsksFor.forM _ (fun _ => []) ls fun l _ => ?_).congr (by simp)
  cases l.parameter? with
  | none => exact AsksFor.pure _
  | some p => exact AsksFor.modify _

theorem checkHazard_asks (op : Operation) (ls : List Location) :
    AsksFor f [] (v.checkHazard op ls : VisitM SessionM Unit) := by
  unfold checkHazard
  split
  · exact AsksFor.pure _
  · exact record_asks _ _

variable {lookup : Option (MethodId → SessionM (Option UsageMap))} (hl : lookup = none ∨ lookup = some f)
include hl

theorem callRegular_asks (callee : MethodId) (args : List Operation) (s : AnalysisState) :
    AsksFor f (if lookup.isSome && v.consultsSummary callee args then [callee] else [])
      (v.callRegular lookup callee args s) := by
  by_cases hc : (lookup.isSome && v.consultsSummary callee args) = true
  · rw [if_pos hc]
    obtain ⟨hsome, hcons⟩ := Bool.and_eq_true_iff.mp hc
    obtain rfl : lookup = some f := hl.resolve_left fun h => by rw [h] at hsome; cases hsome
    unfold consultsSummary at hcons
    simp only [Bool.and_eq_true, Bool.not_eq_true'] at hcons
    obtain ⟨⟨hstr, hexc⟩, hvis⟩ := hcons
    unfold callRegular
    dsimp only
    rw [if_neg (by simp [hstr]), if_neg (by simp [hexc])]
    rw [if_neg (by simp [hvis])]
    -- whatever the summary, the call goes on to record hazards only
    refine ((AsksFor.lift callee).bind fun answer => ?_).congr (List.append_nil _)
    cases answer with
    | none => exact AsksFor.pure s
    | some summary =>
      dsimp only
      split
      · exact AsksFor.pure s
      · refine (AsksFor.forIn_nil _ (fun e _ => ?_) _ _).bind fun _ => AsksFor.pure s
        obtain ⟨arg, i⟩ := e
        dsimp only
        split
        · split
          · exact (checkHazard_asks _ _).bind fun _ => AsksFor.pure _
          · exact AsksFor.pure _
        · exact AsksFor.pure _
  · -- the call returns before any summary is asked for
    rw [if_neg hc]
    unfold callRegular
    dsimp only
    by_cases hstr : (v.stringType.isSome && v.stringType == some (v.prog.method callee).owner) = true
    · rw [if_pos hstr]
      split <;> exact AsksFor.pure _
    · rw [if_neg hstr]
      by_cases hexc : (!(v.prog.method callee).params.isEmpty && !args.isEmpty && v.exceptionType.isSome &&
          v.prog.derivesFrom (v.prog.method callee).owner v.exceptionType) = true
      · rw [if_pos hexc]
        split_ifs <;> exact AsksFor.pure _
      · rw [if_neg hexc]
        rcases hl with rfl | rfl
        · exact AsksFor.pure _
        · have hvis : v.prog.methodVisible callee = true := by
            simpa [consultsSummary, hstr, hexc] using hc
          dsimp only
          rw [if_pos hvis]
          exact AsksFor.pure _

theorem callNested_asks (callee : MethodId) (s : AnalysisState) :
    AsksFor f (if lookup.isSome then [callee] else []) (v.callNested lookup callee s) := by
  unfold callNested
  rcases hl with rfl | rfl
  · exact AsksFor.pure s
  · refine ((AsksFor.lift callee).bind fun answer => ?_).congr (List.append_nil _)
    cases answer with
    | none => exact AsksFor.pure s
    | some summary =>
      dsimp only
      split
      · exact AsksFor.pure s
      · split
        · exact AsksFor.pure s
        · refine (AsksFor.forIn_nil _ (fun e _ => ?_) _ _).bind fun _ => AsksFor.pure s
          obtain ⟨p, site⟩ := e
          dsimp only
          refine AsksFor.get.bind fun log => ?_
          split
          · exact (record_asks _ _).bind fun _ => AsksFor.pure _
          · exact AsksFor.pure _

theorem visit_asks (s : AnalysisState) (step : Operation × Bool) :
    AsksFor f (if lookup.isSome then v.asksAt step else []) (v.visit lookup s step) := by
  obtain ⟨op, deref⟩ := step
  unfold visit asksAt
  dsimp only
  -- the hazard check after the call asks for nothing
  have hderef : ∀ s', AsksFor f [] (if deref = true then v.checkHazard op (v.notValidated op s') >>=
      (fun _ => pure s') else pure s' : VisitM SessionM AnalysisState) := fun s' =>
    (AsksFor.ite _ ((checkHazard_asks _ _).bind fun _ => AsksFor.pure s') (AsksFor.pure s')).congr (by simp)
  generalize op.kind = k
  generalize op.info.method = callee?
  cases callee? with
  | none => cases k <;> exact ((AsksFor.pure s).bind hderef).congr (by cases lookup.isSome <;> rfl)
  | some callee =>
    cases k
    case invocation =>
      dsimp only
      by_cases hn : v.prog.isNested callee = true
      · simp only [hn, if_true, Bool.true_or]
        exact ((callNested_asks hl callee s).bind hderef).congr (by cases lookup.isSome <;> rfl)
      · simp only [hn, if_false, Bool.false_eq_true, Bool.false_or]
        exact ((callRegular_asks hl callee _ s).bind hderef).congr (by cases lookup.isSome <;> simp)
    case objectCreation =>
      exact ((callRegular_asks hl callee _ s).bind hderef).congr (by cases lookup.isSome <;> simp)
    all_goals exact ((AsksFor.pure s).bind hderef).congr (by cases lookup.isSome <;> rfl)

theorem transfer_asks (b : BlockId) (s : AnalysisState) :
    AsksFor f (if lookup.isSome then (v.steps b).flatMap v.asksAt else []) (v.transfer lookup b s) := by
  unfold transfer
  refine ((AsksFor.foldlM _ _ (visit_asks hl) _ s).bind fun _ => AsksFor.pure _).congr ?_
  cases lookup.isSome <;> simp [steps]

/-- A solve asks, at each of its visits, for the summaries the visited block asks for. -/
theorem solve_asks (g : Graph) (budget : Nat) :
    AsksFor f (if lookup.isSome then (Dataflow.solveTrace g v.domain v.flow v.initialState budget).flatMap
        (fun w => (v.steps w.1).flatMap v.asksAt) else [])
      (Dataflow.solve g v.domain (v.transfer lookup) v.initialState budget) := by
  rw [Dataflow.solve_factor (f := v.flow) _ (v.transfer_returns lookup)]
  refine ((AsksFor.forM _ _ _ fun w _ => (transfer_asks hl w.1 w.2).map _).bind fun _ =>
    AsksFor.pure _).congr ?_
  cases lookup.isSome <;> simp

end Procedure

namespace Analysis

/-- The callees whose summaries the analysis of a body asks for, in order: at each visit of the
solve, those the visited block asks for; none when the body has no well-formed graph or
summaries are not used. -/
def bodyRequests (env : Env) (X : MethodId) : List MethodId :=
  match env.facts.graph? X with
  | none => []
  | some g =>
    match g.validate (env.prog.methodRepr X) with
    | .error _ => []
    | .ok () =>
      if env.options.interprocedural then
        (Dataflow.solveTrace g (env.procedure g).domain (env.procedure g).flow (env.procedure g).initialState
          (env.allowance X)).flatMap fun w => ((env.procedure g).steps w.1).flatMap (env.procedure g).asksAt
      else []

/-- A computation followed by one that only returns leaves the session as the first leaves it. -/
theorem run_bind_snd {α β : Type} (z : SessionM α) (k : α → SessionM β) (hk : ∀ a s, ((k a).run s).2 = s)
    (s : Session) : ((z >>= k).run s).2 = (z.run s).2 :=
  hk _ _

/-- The analysis of a body changes the session as asking for the summaries of its requests, in
order, does: it asks for nothing else, whatever the summaries answer. -/
theorem analyzeBody_asks (env : Env) (f : MethodId → SessionM (Option UsageMap)) (X : MethodId)
    (s : Session) : ((analyzeBody env f X).run s).2 = s.follow f (bodyRequests env X) := by
  unfold analyzeBody bodyRequests Env.procedure Env.allowance Env.budget
  cases env.facts.graph? X with
  | none => rfl
  | some g =>
    dsimp only
    cases g.validate (env.prog.methodRepr X) with
    | error e => rfl
    | ok u =>
      dsimp only
      have hl : (if env.options.interprocedural then some f else none) = none ∨
          (if env.options.interprocedural then some f else none) = some f := by
        cases env.options.interprocedural <;> simp
      have h := Procedure.solve_asks (v := Procedure.new env.facts env.options g) hl g
        (Dataflow.allowance env.options.maxIterations.toNat env.options.maxSeconds (env.facts.clock X)) {} s
      -- after the solve, the analysis only returns its outcome
      rw [Dataflow.run_solveTimed_bind, run_bind_snd _ _ fun p _ => by rcases p with ⟨_ | _, _⟩ <;> rfl, h]
      cases env.options.interprocedural <;> rfl

/-! ### The requests a request makes -/

variable (env : Env)

/-- A request computes the outcome of its procedure when the procedure is off the call chain,
has no stored outcome and is not claimed. -/
def Computes (s : Session) (X : MethodId) : Prop :=
  X ∉ s.chain ∧ s.cache.get? X = none ∧ X ∉ s.cache.claims

/-- The session in which the body of `X`, entered from `s` with fuel `n` left for its requests,
makes its `i`-th summary request. -/
def requestSession (n : Nat) (X : MethodId) (s : Session) (i : Nat) : Session :=
  (s.opened X).follow (summaryOf env (resultOf env n)) ((bodyRequests env X).take i)

/-- The requests a request for an outcome makes, itself included. A request with fuel `n + 1`
that computes its procedure makes, for each summary request of the body that qualifies for a
summary within the call-chain limit, a request with fuel `n` from the session of that summary
request, and all the requests that one makes. -/
inductive Makes : Nat → MethodId → Session → Nat → MethodId → Session → Prop
  | refl (n : Nat) (X : MethodId) (s : Session) : Makes n X s n X s
  | inner {n : Nat} {X : MethodId} {s : Session} {c : MethodId} {m : Nat} {Y : MethodId} {u : Session}
      (i : Nat) (hX : Computes s X) (hc : (bodyRequests env X)[i]? = some c)
      (hsum : isSummarizable env c = true)
      (hlen : ¬ ((requestSession env n X s i).chain.length : Int) > env.options.maxCallChain)
      (h : Makes n c (requestSession env n X s i) m Y u) : Makes (n + 1) X s m Y u

theorem summaryOf_chain (n : Nat) (c : MethodId) (u : Session) :
    ((summaryOf env (resultOf env n) c).run u).2.chain = u.chain :=
  summaryOf_keeps env (fun t => t.chain = u.chain) _ (fun _ h => h)
    (fun c t ht => (resultOf_chain env n c t).trans ht) c u rfl

theorem follow_chain (n : Nat) : ∀ (cs : List MethodId) (u : Session),
    (u.follow (summaryOf env (resultOf env n)) cs).chain = u.chain
  | [], _ => rfl
  | c :: cs, u => (follow_chain n cs _).trans (summaryOf_chain env n c u)

@[simp] theorem requestSession_chain (n : Nat) (X : MethodId) (s : Session) (i : Nat) :
    (requestSession env n X s i).chain = s.chain ++ [X] :=
  follow_chain env n _ _

/-- A body with requests has a graph. -/
theorem graph_of_bodyRequests {X c : MethodId} {i : Nat} (h : (bodyRequests env X)[i]? = some c) :
    (env.facts.graph? X).isSome := by
  unfold bodyRequests at h
  cases hg : env.facts.graph? X with
  | none => simp [hg] at h
  | some g => rfl

theorem graph_of_isSummarizable {c : MethodId} (h : isSummarizable env c = true) :
    (env.facts.graph? c).isSome :=
  ((Bool.and_eq_true _ _).mp h).2

/-- A chain without repeats of procedures with graphs is no longer than the list of graphs. -/
theorem length_le_of_graphs {ch : List MethodId} (hnd : ch.Nodup) (hg : ∀ Z ∈ ch, (env.facts.graph? Z).isSome) :
    ch.length ≤ env.facts.graphs.length := by
  have hlen := hnd.length_le_of_subset fun Z hZ => mem_keys_of_graph (hg Z hZ)
  rwa [List.length_map] at hlen

/-- What holds of every request that a request from outside for `P` makes: the fuel left and
the length of the chain add up to the fuel of the first request, and the chain has no repeats,
lists procedures with graphs and keeps within the call-chain limit; the procedure requested is
`P` or has a graph. -/
structure RequestOK (P : MethodId) (n : Nat) (Y : MethodId) (u : Session) : Prop where
  fuel : n + u.chain.length = env.facts.graphs.length + 1
  nodup : u.chain.Nodup
  graphs : ∀ Z ∈ u.chain, (env.facts.graph? Z).isSome
  within : (u.chain.length : Int) ≤ env.options.maxCallChain
  target : Y = P ∨ (env.facts.graph? Y).isSome

namespace RequestOK

variable {env} {P : MethodId}

theorem start (hmcc : 0 ≤ env.options.maxCallChain) {s : Session} (h : s.chain = []) :
    RequestOK env P (env.facts.graphs.length + 1) P s where
  fuel := by simp [h]
  nodup := by simp [h]
  graphs := by simp [h]
  within := by simpa [h] using hmcc
  target := .inl rfl

/-- A request computing its procedure passes what it keeps to each request its body makes. -/
theorem inner {n : Nat} {X : MethodId} {s : Session} (hr : RequestOK env P (n + 1) X s)
    (hX : Computes s X) {c : MethodId} {i : Nat} (hc : (bodyRequests env X)[i]? = some c)
    (hsum : isSummarizable env c = true)
    (hlen : ¬ ((requestSession env n X s i).chain.length : Int) > env.options.maxCallChain) :
    RequestOK env P n c (requestSession env n X s i) where
  fuel := by
    have hfuel := hr.fuel
    rw [requestSession_chain, List.length_append, List.length_singleton]
    omega
  nodup := by
    rw [requestSession_chain, ← List.concat_eq_append]
    exact hr.nodup.concat hX.1
  graphs Z hZ := by
    rw [requestSession_chain] at hZ
    rcases List.mem_append.mp hZ with hZ | hZ
    · exact hr.graphs Z hZ
    · rw [List.mem_singleton.mp hZ]
      exact graph_of_bodyRequests env hc
  within := Int.not_lt.mp hlen
  target := .inr (graph_of_isSummarizable env hsum)

/-- Every request made from one that keeps the invariant keeps it. -/
theorem makes {n : Nat} {X : MethodId} {s : Session} {m : Nat} {Y : MethodId} {u : Session}
    (h : Makes env n X s m Y u) (hr : RequestOK env P n X s) : RequestOK env P m Y u := by
  induction h with
  | refl => exact hr
  | inner i hX hc hsum hlen _ ih => exact ih (hr.inner hX hc hsum hlen)

/-- The fuel never runs out: the chain lists distinct procedures with graphs. -/
theorem fuel_pos {n : Nat} {Y : MethodId} {u : Session} (hr : RequestOK env P n Y u) : 0 < n := by
  have hfuel := hr.fuel
  have hlen := length_le_of_graphs env hr.nodup hr.graphs
  omega

/-- The chain of a procedure entered: no repeats, within the call-chain limit plus one, and no
longer than the number of procedures that can be analysed. -/
theorem entered {n : Nat} {Y : MethodId} {u : Session} (hr : RequestOK env P n Y u) (hY : Computes u Y) :
    (u.chain ++ [Y]).Nodup ∧ ((u.chain ++ [Y]).length : Int) ≤ env.options.maxCallChain + 1 ∧
      (u.chain ++ [Y]).length ≤ (insert P (env.facts.graphs.map Prod.fst).toFinset).card := by
  have hnd : (u.chain ++ [Y]).Nodup := by
    rw [← List.concat_eq_append]
    exact hr.nodup.concat hY.1
  refine ⟨hnd, ?_, ?_⟩
  · have hwithin := hr.within
    rw [List.length_append, List.length_singleton]
    omega
  · -- every procedure on the chain has a graph, and the one entered is `P` or has one
    rw [← List.toFinset_card_of_nodup hnd]
    refine Finset.card_le_card fun Z hZ => ?_
    rcases List.mem_append.mp (List.mem_toFinset.mp hZ) with hZ | hZ
    · exact Finset.mem_insert_of_mem (List.mem_toFinset.mpr (mem_keys_of_graph (hr.graphs Z hZ)))
    · rw [List.mem_singleton.mp hZ]
      rcases hr.target with rfl | hg
      · exact Finset.mem_insert_self _ _
      · exact Finset.mem_insert_of_mem (List.mem_toFinset.mpr (mem_keys_of_graph hg))

end RequestOK

/-- The interprocedural recursion terminates on every program, its call chains bounded by the limit
and by the procedures that can be analysed. -/
theorem recursion_terminates (hmcc : 0 ≤ env.options.maxCallChain) (P : MethodId) (s₀ : Session)
    (h₀ : s₀.chain = []) :
    (∀ f X s, ((analyzeBody env f X).run s).2 = s.follow f (bodyRequests env X)) ∧
      ((analyze env P).run s₀).2.chain = [] ∧
      ∀ m Y u, Makes env (env.facts.graphs.length + 1) P s₀ m Y u →
        0 < m ∧ (Computes u Y → (u.chain ++ [Y]).Nodup ∧
          ((u.chain ++ [Y]).length : Int) ≤ env.options.maxCallChain + 1 ∧
          (u.chain ++ [Y]).length ≤ (insert P (env.facts.graphs.map Prod.fst).toFinset).card) := by
  refine ⟨analyzeBody_asks env, ?_, fun m Y u h => ?_⟩
  · rw [analyze_run]
    exact (resultOf_chain env _ P s₀).trans h₀
  · have hr := (RequestOK.start hmcc h₀).makes h
    exact ⟨hr.fuel_pos, hr.entered⟩

/-- The analysis of `f` from a fresh session: every request it makes has fuel left. -/
theorem recursion_terminates_readLoop :
    0 ≤ readLoopEnv.options.maxCallChain ∧ ({} : Session).chain = [] ∧
      ∀ m Y u, Makes readLoopEnv (readLoopEnv.facts.graphs.length + 1) 0 {} m Y u → 0 < m :=
  ⟨by decide, rfl, fun m Y u h => ((recursion_terminates readLoopEnv (by decide) 0 {} rfl).2.2 m Y u h).1⟩

end Analysis

end NullGuard
