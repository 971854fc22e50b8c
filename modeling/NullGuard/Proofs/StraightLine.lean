import NullGuard.Proofs.Outcome
import NullGuard.Proofs.LookThrough

/-!
# Procedures with one body block

A straight-line graph leads from the entry through one body block to the exit
(`Graph.straightLine`). The solver visits its three blocks once each, in that order, each from
the join of what the block before it gave (`Dataflow.solve_straightLine`). When no top-level
operation throws, the transfer of the entry and of the exit changes nothing, so the analysis of
such a procedure is the transfer of its body block, run once from the entry state
(`Analysis.run_analyzeBody_straightLine`).

On entry, a trackable parameter without the validated-not-null contract is unvalidated when no
points-to fact overrides a parameter (`Procedure.get_initialState_param`). Two bodies are worked
out from there:

* `q.member;` records `q` at the read of `q` (`Analysis.analyzeBody_dereferencing`);
* `callee(q);`, passing `q` as the argument bound to `r` of a callee whose summary the call
  consults, asks once for that summary and records `q` at the argument exactly when the summary
  lists `r` (`Analysis.analyzeBody_passing`).
-/

namespace NullGuard

/-- The graph of a procedure whose body is one block: entry, a body block holding `ops`, and
the exit it returns to. -/
def Graph.straightLine (m : MethodId) (ops : List Operation) : Graph :=
  let (g, b) := (Graph.new m).addBlock ops
  (g.addEdge g.entry b .fallThrough).addEdge b g.exit .returnEdge

namespace Graph

variable (m : MethodId) (ops : List Operation)

theorem reversePostorder_straightLine : (straightLine m ops).reversePostorder = [0, 2, 1] := by
  rfl

theorem validate_straightLine (subject : String) : (straightLine m ops).validate subject = .ok () := by
  rfl

theorem unhandledThrowBlocks_straightLine (h : ∀ op ∈ ops, op.kind ≠ .throwStatement) :
    (straightLine m ops).unhandledThrowBlocks = [] := by
  have hm : (straightLine m ops).members = [0, 1, 2] := rfl
  have h0 : ((straightLine m ops).block 0).ops = [] := rfl
  have h1 : ((straightLine m ops).block 1).ops = [] := rfl
  have h2 : ((straightLine m ops).block 2).ops = ops := rfl
  have hops : ops.any (·.kind == .throwStatement) = false := by simpa using h
  simp [unhandledThrowBlocks, hm, h0, h1, h2, hops]

end Graph

/-! ### Operations -/

namespace Operation

/-- A read of the parameter `q`. -/
def readOf (q : ParamRef) (info : OpInfo) : Operation :=
  .node { info with kind := .parameterReference, parameter := some q } []

/-- An argument passing `value`, bound to the parameter `r`. -/
def argumentOf (r : ParamRef) (value : Operation) (info : OpInfo) : Operation :=
  .node { info with kind := .argument, parameter := some r } [(.value, value)]

/-- A call of `callee` with its arguments. -/
def callOf (callee : MethodId) (args : List Operation) (info : OpInfo) : Operation :=
  .node { info with kind := .invocation, method := some callee } (args.map (.argument, ·))

/-- An expression statement. -/
def statementOf (value : Operation) (info : OpInfo) : Operation :=
  .node { info with kind := .expressionStatement } [(.value, value)]

/-- `callee(q);`, the read of `q` passed as the argument bound to `r`. -/
def passing (callee : MethodId) (q r : ParamRef) (stmt call arg read : OpInfo) : Operation :=
  statementOf (callOf callee [argumentOf r (readOf q read) arg] call) stmt

/-- `q.member;`, the member access `access` on the read of `q`. -/
def dereferencing (q : ParamRef) (stmt access read : OpInfo) : Operation :=
  statementOf (.node access [(.receiver, readOf q read)]) stmt

@[simp] theorem kind_readOf (q : ParamRef) (info : OpInfo) : (readOf q info).kind = .parameterReference :=
  rfl

@[simp] theorem kind_argumentOf (r : ParamRef) (value : Operation) (info : OpInfo) :
    (argumentOf r value info).kind = .argument :=
  rfl

@[simp] theorem kind_callOf (callee : MethodId) (args : List Operation) (info : OpInfo) :
    (callOf callee args info).kind = .invocation :=
  rfl

@[simp] theorem kind_statementOf (value : Operation) (info : OpInfo) :
    (statementOf value info).kind = .expressionStatement :=
  rfl

@[simp] theorem method_callOf (callee : MethodId) (args : List Operation) (info : OpInfo) :
    (callOf callee args info).info.method = some callee :=
  rfl

@[simp] theorem arguments_callOf (callee : MethodId) (args : List Operation) (info : OpInfo) :
    (callOf callee args info).arguments = args := by
  simp [callOf, arguments, inSlot, slots, List.filterMap_map]

@[simp] theorem parameter_argumentOf (r : ParamRef) (value : Operation) (info : OpInfo) :
    (argumentOf r value info).info.parameter = some r :=
  rfl

@[simp] theorem span_argumentOf (r : ParamRef) (value : Operation) (info : OpInfo) :
    (argumentOf r value info).info.span = info.span :=
  rfl

end Operation

/-! ### The solver on a straight line -/

namespace Dataflow

section StraightLine

variable {L : Type} (d : Domain L) (seed : L) (p : MethodId) (ops : List Operation) (st : Progress L)

theorem input_straightLine_entry :
    st.input (Graph.straightLine p ops) d seed #[0, 2, 1] 0 = d.join d.bottom seed := by
  rfl

theorem input_straightLine_body {o : L} (h : st.outAt 0 = some o) :
    st.input (Graph.straightLine p ops) d seed #[0, 2, 1] 1 = d.join d.bottom o := by
  have hb : blockAt (Graph.straightLine p ops) #[0, 2, 1] 1 = 2 := by rfl
  have hp : (Graph.straightLine p ops).predBlocks 2 = [0] := by rfl
  have hr : rankIn #[0, 2, 1] 0 = some 0 := by rfl
  have h' : (st.outs[0]?).join = some o := h
  unfold Progress.input incoming
  rw [hb, hp]
  simp only [List.filterMap_cons, List.filterMap_nil, hr, Option.bind_some, h', Domain.joinAll]
  rfl

theorem input_straightLine_exit {o : L} (h : st.outAt 1 = some o) :
    st.input (Graph.straightLine p ops) d seed #[0, 2, 1] 2 = d.join d.bottom o := by
  have hb : blockAt (Graph.straightLine p ops) #[0, 2, 1] 2 = 1 := by rfl
  have hp : (Graph.straightLine p ops).predBlocks 1 = [2] := by rfl
  have hr : rankIn #[0, 2, 1] 2 = some 1 := by rfl
  have h' : (st.outs[1]?).join = some o := h
  unfold Progress.input incoming
  rw [hb, hp]
  simp only [List.filterMap_cons, List.filterMap_nil, hr, Option.bind_some, h', Domain.joinAll]
  rfl

end StraightLine

/-- With a budget of at least three visits, the solver visits the entry, the body block and the
exit of a straight-line graph once each, each from the join of what the block before gave. -/
theorem solve_straightLine {m : Type → Type} [Monad m] [LawfulMonad m] {L : Type} (d : Domain L)
    (t : BlockId → L → m L) (seed : L) (n : Nat) (p : MethodId) (ops : List Operation) :
    solve (Graph.straightLine p ops) d t seed (n + 3) = (do
      let o₀ ← t 0 (d.join d.bottom seed)
      let o₂ ← t 2 (d.join d.bottom o₀)
      let o₁ ← t 1 (d.join d.bottom o₂)
      pure (.ok { order := #[0, 2, 1], ordinals := #[0, 2, 1], exitRank := some 2,
                  ins := #[some (d.join d.bottom seed), some (d.join d.bottom o₀), some (d.join d.bottom o₂)],
                  outs := #[some o₀, some o₂, some o₁], iterations := 3 })) := by
  unfold solve
  rw [Graph.reversePostorder_straightLine]
  dsimp only
  -- each visit is one step of the run, the worklist moving on to the next block of the line
  rw [show n + 3 = n + 2 + 1 from rfl, run_cons]
  case hw => rfl
  simp only [bind_assoc, input_straightLine_entry, show blockAt (Graph.straightLine p ops) #[0, 2, 1] 0 = 0 from rfl]
  refine bind_congr fun o₀ => ?_
  rw [show n + 2 = n + 1 + 1 from rfl, run_cons]
  case hw => rfl
  rw [input_straightLine_body _ _ _ _ _ (o := o₀) (by rfl)]
  simp only [bind_assoc]
  refine bind_congr fun o₂ => ?_
  rw [run_cons]
  case hw => rfl
  rw [input_straightLine_exit _ _ _ _ _ (o := o₂) (by rfl)]
  simp only [bind_assoc]
  refine bind_congr fun o₁ => ?_
  rw [run_nil]
  case hw => rfl
  simp only [pure_bind]
  refine congrArg (fun sol => pure (Except.ok sol)) ?_
  simp only [Solution.mk.injEq]
  refine ⟨trivial, ?_, rfl, rfl, rfl, rfl⟩
  simp only [List.map_toArray, List.map_cons, List.map_nil]
  rfl

end Dataflow

/-! ### The transfer on a straight line -/

namespace Procedure

section Blocks

variable {v : Procedure} {m : MethodId} {ops : List Operation} (hv : v.graph = Graph.straightLine m ops)
  {n : Type → Type} [Monad n] [LawfulMonad n] (lookup : Option (MethodId → n (Option UsageMap)))
include hv

theorem transfer_straightLine_entry (s : AnalysisState) : v.transfer lookup 0 s = pure s := by
  have hb : v.graph.block 0 = { ordinal := 0, role := .entry, succs := [0] } := by rw [hv]; rfl
  simp [transfer, hb]

theorem transfer_straightLine_exit (hr : v.reconciles = false) (s : AnalysisState) :
    v.transfer lookup 1 s = pure s := by
  have hb : v.graph.block 1 = { ordinal := 1, role := .exit, preds := [1] } := by rw [hv]; rfl
  simp [transfer, hb, hr]

theorem transfer_straightLine_body (s : AnalysisState) :
    v.transfer lookup 2 s = (ops.flatMap (·.visits false)).foldlM (v.visit lookup) s := by
  have hb : v.graph.block 2 = { ordinal := 2, ops, succs := [1], preds := [0] } := by rw [hv]; rfl
  simp [transfer, hb]

end Blocks

variable (v : Procedure)

/-- The input of the body block of a straight-line procedure: the entry state joined into the
empty state at the entry, and again at the body block. -/
def bodyInput : AnalysisState := v.emptyState.merge (v.emptyState.merge v.initialState)

/-! ### The entry state -/

/-- The write the entry state makes for one parameter: its locations become `validated` when it
carries the contract and `notValidated` otherwise, unless it has no location. -/
def entryWrite (s : AnalysisState) (p : ParamRef) : AnalysisState :=
  match (v.facts.pointsTo.ofParam v.prog p).kind with
  | .noLocation => s
  | _ => s.setAll (v.paramLocations p)
      (if v.facts.hasContract v.options.validatedNotNullAttribute p then .validated else .notValidated)

theorem initialState_eq_foldl : v.initialState = v.trackableParameters.foldl v.entryWrite v.emptyState :=
  rfl

@[simp] theorem tracks_entryWrite (s : AnalysisState) (p : ParamRef) : (v.entryWrite s p).tracks = s.tracks := by
  unfold entryWrite
  split <;> simp

theorem tracks_foldl_entryWrite (ps : List ParamRef) (s : AnalysisState) :
    (ps.foldl v.entryWrite s).tracks = s.tracks := by
  induction ps generalizing s with
  | nil => rfl
  | cons p ps ih => rw [List.foldl_cons, ih, tracks_entryWrite]

theorem isTrackable_of_mem {p : ParamRef} (hp : p ∈ v.trackableParameters) : v.isTrackable (some p) = true := by
  simp only [trackableParameters, List.mem_flatMap, List.mem_filter, Program.paramsOf, List.mem_map,
    List.mem_range] at hp
  obtain ⟨m, hm, ⟨i, -, rfl⟩, href⟩ := hp
  simp [isTrackable, href, hm]

/-- A reference-typed parameter of the procedure analysed is trackable. -/
theorem mem_trackableParameters {q : ParamRef} (hq : q.method = v.graph.method)
    (href : v.prog.paramIsReference q = true) (hv : v.owners = v.prog.enclosing v.graph.method) :
    q ∈ v.trackableParameters := by
  have hlt : q.ordinal < (v.prog.method q.method).params.length := by
    unfold Program.paramIsReference Program.param? at href
    cases h : (v.prog.method q.method).params[q.ordinal]? with
    | none => simp [h] at href
    | some _ => exact (List.getElem?_eq_some_iff.mp h).1
  have hown : q.method ∈ v.owners := by
    rw [hv, hq, Program.enclosing, Program.enclosingFuel]
    exact List.mem_cons_self
  simp only [trackableParameters, List.mem_flatMap, List.mem_filter, Program.paramsOf, List.mem_map,
    List.mem_range]
  exact ⟨q.method, hown, ⟨q.ordinal, hlt, rfl⟩, href⟩

section Unaliased

variable {v} (hpt : v.facts.pointsTo.params = [])
include hpt

/-- With no points-to override of parameters, a reference-typed parameter is known to hold its
own cell. -/
theorem ofParam_eq_known {p : ParamRef} (href : v.prog.paramIsReference p = true) :
    v.facts.pointsTo.ofParam v.prog p = .known [.param p] := by
  simp [PointsToFacts.ofParam, hpt, href]

theorem paramLocations_eq {p : ParamRef} (href : v.prog.paramIsReference p = true) :
    v.paramLocations p = [.param p] := by
  simp [paramLocations, ofParam_eq_known hpt href, PointsTo.known, PointsTo.ofList, Location.dedup]

/-- The entry write for a trackable parameter touches its own cell only. -/
theorem get_entryWrite {p : ParamRef} (hp : p ∈ v.trackableParameters) {s : AnalysisState}
    (hs : s.tracks = v.tracks) (q : ParamRef) :
    (v.entryWrite s p).get (.param q) =
      if p = q then (if v.facts.hasContract v.options.validatedNotNullAttribute p then .validated else .notValidated)
      else s.get (.param q) := by
  have ht := v.isTrackable_of_mem hp
  have href : v.prog.paramIsReference p = true := by
    simp only [isTrackable, Bool.and_eq_true] at ht
    exact ht.1
  unfold entryWrite
  rw [ofParam_eq_known hpt href, paramLocations_eq hpt href]
  dsimp only [PointsTo.known, PointsTo.ofList]
  rw [AnalysisState.get_setAll]
  by_cases hpq : p = q
  · subst hpq
    simp [hs, tracks, ht, Location.parameter?]
  · simp [hpq, Location.normal]

/-- On entry, a trackable parameter without the contract is unvalidated. -/
theorem get_initialState_param {q : ParamRef} (hq : q ∈ v.trackableParameters)
    (hc : v.facts.hasContract v.options.validatedNotNullAttribute q = false) :
    v.initialState.get (.param q) = .notValidated := by
  obtain ⟨pre, post, hsplit⟩ := List.append_of_mem hq
  have hsub : ∀ p ∈ post, p ∈ v.trackableParameters := fun p h => by simp [hsplit, h]
  have hpre : (pre.foldl v.entryWrite v.emptyState).tracks = v.tracks := v.tracks_foldl_entryWrite _ _
  rw [initialState_eq_foldl, hsplit, List.foldl_append, List.foldl_cons]
  -- the write for `q` leaves its cell unvalidated; each later write leaves it alone or writes it again
  refine (List.foldlRecOn (motive := fun t : AnalysisState => t.tracks = v.tracks ∧ t.get (.param q) = .notValidated)
    post _ ⟨by rw [tracks_entryWrite, hpre], by rw [get_entryWrite hpt hq hpre]; simp [hc]⟩
    fun t ht p hp => ?_).2
  refine ⟨by rw [tracks_entryWrite, ht.1], ?_⟩
  rw [get_entryWrite hpt (hsub p hp) ht.1]
  by_cases hpq : p = q
  · subst hpq
    simp [hc]
  · simp [hpq, ht.2]

end Unaliased

theorem get_bodyInput (l : Location) : v.bodyInput.get l = v.initialState.get l := by
  have hd : (v.emptyState.merge v.initialState).Distinct := (AnalysisState.distinct_empty _).merge _
  rw [bodyInput, AnalysisState.get_merge _ hd, AnalysisState.get_merge _ v.initialState_fact.2]
  simp [emptyState, AnalysisState.empty, AnalysisState.get, AnalysisState.valueOf?]

/-! ### Reads, arguments and calls -/

section Unaliased

variable {v} (hpt : v.facts.pointsTo.params = [])
include hpt

/-- On entry to the body block, a trackable parameter without the contract is hazardous. -/
theorem isHazardous_bodyInput {q : ParamRef} (hq : q ∈ v.trackableParameters)
    (hc : v.facts.hasContract v.options.validatedNotNullAttribute q = false) :
    v.bodyInput.isHazardous (.param q) = true := by
  simp [AnalysisState.isHazardous, v.get_bodyInput, get_initialState_param hpt hq hc, Validation.isHazardous]

/-- A read of a trackable parameter that no points-to fact redirects refers to the parameter's
own cell. -/
theorem locations_read {q : ParamRef} (read : OpInfo) (hr : v.facts.pointsTo.nodes.lookup read.uid = none)
    (ht : v.isTrackable (some q) = true) : v.locations (Operation.readOf q read) = [.param q] := by
  have hn : ∀ n ∈ (Operation.readOf q read).lookThrough, v.facts.pointsTo.nodes.lookup n.info.uid = none := by
    intro n hn
    simp only [Operation.readOf, Operation.lookThrough, List.mem_cons, List.not_mem_nil, or_false] at hn
    subst hn
    exact hr
  rw [v.locations_of_lookThrough _ hn hpt]
  simp [Operation.readOf, Operation.referencedParameter, ht]

/-- An argument passing such a read refers to the same cell. -/
theorem locations_argument {q r : ParamRef} (arg read : OpInfo) (ha : v.facts.pointsTo.nodes.lookup arg.uid = none)
    (hr : v.facts.pointsTo.nodes.lookup read.uid = none) (ht : v.isTrackable (some q) = true) :
    v.locations (Operation.argumentOf r (Operation.readOf q read) arg) = [.param q] := by
  -- the argument is looked through to the read, and neither node is redirected
  have hn : ∀ n ∈ (Operation.argumentOf r (Operation.readOf q read) arg).lookThrough,
      v.facts.pointsTo.nodes.lookup n.info.uid = none := by
    intro n hn
    simp only [Operation.argumentOf, Operation.readOf, Operation.lookThrough, Operation.lookThroughValue,
      beq_self_eq_true, if_true, List.mem_cons, List.not_mem_nil, or_false] at hn
    rcases hn with rfl | rfl
    · exact ha
    · exact hr
  rw [v.locations_of_lookThrough _ hn hpt]
  simp [Operation.argumentOf, Operation.readOf, Operation.referencedParameter, Operation.valueParameter, ht]

end Unaliased

theorem consultsSummary_eq_true {callee : MethodId} (args : List Operation)
    (hstr : v.stringType ≠ some (v.prog.method callee).owner)
    (hexc : v.prog.derivesFrom (v.prog.method callee).owner v.exceptionType = false)
    (hvis : v.prog.methodVisible callee = false) : v.consultsSummary callee args = true := by
  simp [consultsSummary, hstr, hexc, hvis]

section Steps

variable {n : Type → Type} [Monad n] [LawfulMonad n] (lookup : Option (MethodId → n (Option UsageMap)))

/-- An operation that calls nothing and is not dereferenced leaves state and log alone. -/
theorem visit_plain (op : Operation) (hi : op.kind ≠ .invocation) (ho : op.kind ≠ .objectCreation)
    (s : AnalysisState) : v.visit lookup s (op, false) = pure s := by
  unfold visit
  dsimp only
  cases hk : op.kind <;> simp_all

/-- A dereferenced operation that calls nothing is checked for a hazard. -/
theorem visit_deref (op : Operation) (hi : op.kind ≠ .invocation) (ho : op.kind ≠ .objectCreation)
    (s : AnalysisState) :
    v.visit lookup s (op, true) = (do v.checkHazard op (v.notValidated op s); pure s) := by
  unfold visit
  dsimp only
  cases hk : op.kind <;> simp_all

theorem visit_call (op : Operation) {callee : MethodId} (hk : op.kind = .invocation)
    (hm : op.info.method = some callee) (hn : v.prog.isNested callee = false) (s : AnalysisState) :
    v.visit lookup s (op, false) = v.callRegular lookup callee op.arguments s := by
  unfold visit
  simp [hk, hm, hn]

/-- A call with one argument, bound to `r`, that consults the callee's summary asks for it once
and checks the argument when the summary lists `r`. -/
theorem callRegular_single (f : MethodId → n (Option UsageMap)) {callee : MethodId} (arg : Operation)
    {r : ParamRef} (hc : v.consultsSummary callee [arg] = true) (hr : arg.info.parameter = some r)
    (s : AnalysisState) :
    v.callRegular (some f) callee [arg] s = (do
      let a ← liftM (f callee)
      if a.any (·.contains r) then v.checkHazard arg (v.notValidated arg s)
      pure s) := by
  simp only [consultsSummary, Bool.and_eq_true, Bool.not_eq_true'] at hc
  obtain ⟨⟨hstr, hexc⟩, hvis⟩ := hc
  unfold callRegular
  simp only [hstr, hexc, hvis]
  refine bind_congr fun a => ?_
  cases a with
  | none => simp
  | some summary =>
    by_cases he : summary.isEmpty = true
    · -- an empty summary lists nothing
      have hn : summary.contains r = false := by
        simp only [UsageMap.isEmpty, List.isEmpty_iff] at he
        simp [UsageMap.contains, he]
      simp [he, hn]
    · by_cases hsr : summary.contains r = true <;> simp [he, boundParameter, hr, hsr]

/-- A hazard check of an operation that refers to one hazardous parameter cell records the
parameter at the operation's site. -/
theorem checkHazard_single {op : Operation} {q : ParamRef} (hl : v.locations op = [.param q])
    (hn : v.facts.nulls.ofNode op.info.uid ≠ .notNull) {s : AnalysisState} (hs : s.isHazardous (.param q) = true) :
    v.checkHazard op (v.notValidated op s) = (modify fun log => (log.record q op.info.span).2 : VisitM n Unit) := by
  simp [checkHazard, notValidated, hl, hs, hn, record, Location.parameter?]

end Steps

end Procedure

/-! ### The analysis of a straight-line procedure -/

namespace Analysis

/-- The transfer of the body block of a straight-line procedure, from its input, with summaries
requested through `f`. -/
def lineTransfer (env : Env) (f : MethodId → SessionM (Option UsageMap)) (g : Graph) :
    VisitM SessionM AnalysisState :=
  (Procedure.new env.facts env.options g).transfer (if env.options.interprocedural then some f else none) 2
    (Procedure.new env.facts env.options g).bodyInput

/-- The analysis of a straight-line procedure, allowed at least three visits, is complete, and
its hazards and its effect on the session are those of one transfer of the body block. -/
theorem run_analyzeBody_straightLine (env : Env) (f : MethodId → SessionM (Option UsageMap)) (p : MethodId)
    (ops : List Operation) (hg : env.facts.graph? p = some (Graph.straightLine p ops))
    (hthrow : ∀ op ∈ ops, op.kind ≠ .throwStatement) (hb : 3 ≤ env.allowance p) (t : Session) :
    ∃ sol, (analyzeBody env f p).run t =
      ({ method := p, complete := true, dataflow := some sol,
         usages := UsageMap.ofLog env.prog (((lineTransfer env f (Graph.straightLine p ops)).run {}).run t).1.2 },
        (((lineTransfer env f (Graph.straightLine p ops)).run {}).run t).2) := by
  obtain ⟨n, hn⟩ : ∃ n, Dataflow.allowance env.options.maxIterations.toNat env.options.maxSeconds
      (env.facts.clock p) = n + 3 := ⟨env.allowance p - 3, (Nat.sub_add_cancel hb).symm⟩
  have hv : (Procedure.new env.facts env.options (Graph.straightLine p ops)).graph = Graph.straightLine p ops := rfl
  have hr : (Procedure.new env.facts env.options (Graph.straightLine p ops)).reconciles = false := by
    simp [Procedure.new, Graph.unhandledThrowBlocks_straightLine p ops hthrow]
  have hbody : (Procedure.new env.facts env.options (Graph.straightLine p ops)).transfer
      (if env.options.interprocedural = true then some f else none) 2
      ((Procedure.new env.facts env.options (Graph.straightLine p ops)).domain.join
        (Procedure.new env.facts env.options (Graph.straightLine p ops)).domain.bottom
        ((Procedure.new env.facts env.options (Graph.straightLine p ops)).domain.join
          (Procedure.new env.facts env.options (Graph.straightLine p ops)).domain.bottom
          (Procedure.new env.facts env.options (Graph.straightLine p ops)).initialState)) =
      lineTransfer env f (Graph.straightLine p ops) := rfl
  unfold analyzeBody
  simp only [hg, Graph.validate_straightLine]
  rw [Dataflow.run_solveTimed_bind]
  -- the entry and the exit pass their input on; only the body block acts
  simp only [hn, Dataflow.solve_straightLine,
    Procedure.transfer_straightLine_entry hv, Procedure.transfer_straightLine_exit hv _ hr, pure_bind]
  rw [hbody]
  rcases hrun : ((lineTransfer env f (Graph.straightLine p ops)).run {}).run t with ⟨⟨o₂, log⟩, t'⟩
  simp only [StateT.run_bind, StateT.run_pure, hrun]
  exact ⟨_, rfl⟩

/-- A step that asks for one summary and, depending on the answer, records one hazard, run from
the empty log. -/
theorem run_ask_record {α β : Type} (x : SessionM α) (c : α → Bool) (g : HazardLog → HazardLog) (b : β)
    (t : Session) :
    (((do
        let a ← liftM x
        if c a then modify g
        pure b : VisitM SessionM β).run {}).run t) = ((b, if c (x.run t).1 then g {} else {}), (x.run t).2) := by
  have hid : ∀ {γ δ : Type} (y : Id γ) (k : γ → Id δ), y >>= k = k y := fun _ _ => rfl
  rcases hx : x.run t with ⟨a, t'⟩
  by_cases hc : c a = true
  · simp [hx]
    rw [hid]
    simp [hc]
    rfl
  · simp [hx]
    rw [hid]
    simp [hc]
    rfl

/-- A step that records one hazard, run from the empty log. -/
theorem run_record {β : Type} (g : HazardLog → HazardLog) (b : β) (t : Session) :
    (((do modify g; pure b : VisitM SessionM β).run {}).run t) = ((b, g {}), t) :=
  rfl

theorem ofLog_record_empty (prog : Program) (q : ParamRef) (site : Option Span) :
    UsageMap.ofLog prog (({} : HazardLog).record q site).2 = ⟨[(q, site)]⟩ := by
  simp [UsageMap.ofLog, UsageMap.ofList, HazardLog.record]

theorem ofLog_empty (prog : Program) : UsageMap.ofLog prog {} = UsageMap.empty := by
  simp [UsageMap.ofLog, UsageMap.ofList, UsageMap.empty]

section Passing

variable (env : Env) (f : MethodId → SessionM (Option UsageMap)) {p callee : MethodId} {q r : ParamRef}
  {stmt call arg read : OpInfo}
  (hi : env.options.interprocedural = true) (hq : q.method = p) (href : env.prog.paramIsReference q = true)
  (hc : env.facts.hasContract env.options.validatedNotNullAttribute q = false)
  (hpt : env.facts.pointsTo.params = []) (ha : env.facts.pointsTo.nodes.lookup arg.uid = none)
  (hr : env.facts.pointsTo.nodes.lookup read.uid = none) (hn : env.facts.nulls.ofNode arg.uid ≠ .notNull)
  (hnest : env.prog.isNested callee = false) (hvis : env.prog.methodVisible callee = false)
  (hstr : env.facts.wellKnownType stringTypeName ≠ some (env.prog.method callee).owner)
  (hexc : env.prog.derivesFrom (env.prog.method callee).owner (env.facts.wellKnownType exceptionTypeName) = false)
include hi hq href hc hpt ha hr hn hnest hvis hstr hexc

/-- Passing a parameter on asks once for the callee's summary and records the parameter at the
argument when the summary lists the parameter the argument is bound to. -/
theorem lineTransfer_passing :
    lineTransfer env f (Graph.straightLine p [Operation.passing callee q r stmt call arg read]) = (do
      let a ← liftM (f callee)
      if a.any (·.contains r) then modify fun log => (log.record q arg.span).2
      pure (Procedure.new env.facts env.options
        (Graph.straightLine p [Operation.passing callee q r stmt call arg read])).bodyInput) := by
  set v := Procedure.new env.facts env.options (Graph.straightLine p [Operation.passing callee q r stmt call arg read])
  have hv : v.graph = Graph.straightLine p [Operation.passing callee q r stmt call arg read] := rfl
  -- the read, the argument, the call and the statement, none of them dereferenced
  have hsteps : [Operation.passing callee q r stmt call arg read].flatMap (·.visits false) =
      [(Operation.readOf q read, false), (Operation.argumentOf r (Operation.readOf q read) arg, false),
        (Operation.callOf callee [Operation.argumentOf r (Operation.readOf q read) arg] call, false),
        (Operation.passing callee q r stmt call arg read, false)] := rfl
  have hqt : q ∈ v.trackableParameters := v.mem_trackableParameters (by rw [hv]; exact hq) href rfl
  have hhaz := Procedure.isHazardous_bodyInput hpt hqt hc
  unfold lineTransfer
  rw [if_pos hi, Procedure.transfer_straightLine_body hv, hsteps]
  simp only [List.foldlM_cons, List.foldlM_nil]
  rw [v.visit_plain _ _ (by simp) (by simp), pure_bind, v.visit_plain _ _ (by simp) (by simp), pure_bind,
    v.visit_call _ _ (by simp) (by simp) hnest, Operation.arguments_callOf,
    v.callRegular_single _ _ (v.consultsSummary_eq_true _ hstr hexc hvis) (Operation.parameter_argumentOf r _ arg),
    v.checkHazard_single (Procedure.locations_argument hpt arg read ha hr (v.isTrackable_of_mem hqt)) hn hhaz]
  simp only [bind_pure, v.visit_plain (some f) (Operation.passing callee q r stmt call arg read)
    (by simp [Operation.passing]) (by simp [Operation.passing])]
  refine bind_congr fun a => ?_
  simp only [Operation.span_argumentOf]
  rfl

/-- A procedure that passes its parameter `q` on to `callee` reports `q`, at the argument, exactly
when the summary it gets for `callee` lists the parameter the argument is bound to; the session
is left as the summary request leaves it. -/
theorem analyzeBody_passing
    (hg : env.facts.graph? p = some (Graph.straightLine p [Operation.passing callee q r stmt call arg read]))
    (hb : 3 ≤ env.allowance p) (t : Session) :
    ∃ sol, (analyzeBody env f p).run t =
      ({ method := p, complete := true, dataflow := some sol,
         usages := if ((f callee).run t).1.any (·.contains r) then ⟨[(q, arg.span)]⟩ else UsageMap.empty },
        ((f callee).run t).2) := by
  obtain ⟨sol, h⟩ := run_analyzeBody_straightLine env f p _ hg (by simp [Operation.passing]) hb t
  rw [lineTransfer_passing env f hi hq href hc hpt ha hr hn hnest hvis hstr hexc, run_ask_record] at h
  refine ⟨sol, h.trans ?_⟩
  by_cases hx : ((f callee).run t).1.any (·.contains r) = true
  · simp [hx, ofLog_record_empty]
  · simp [hx, ofLog_empty]

end Passing

section Dereferencing

variable (env : Env) (f : MethodId → SessionM (Option UsageMap)) {p : MethodId} {q : ParamRef}
  {stmt access read : OpInfo} (hacc : access.kind.isMemberReference = true)
  (hq : q.method = p) (href : env.prog.paramIsReference q = true)
  (hc : env.facts.hasContract env.options.validatedNotNullAttribute q = false)
  (hpt : env.facts.pointsTo.params = []) (hr : env.facts.pointsTo.nodes.lookup read.uid = none)
  (hn : env.facts.nulls.ofNode read.uid ≠ .notNull)
include hacc hq href hc hpt hr hn

/-- Dereferencing a parameter records it at its read. -/
theorem lineTransfer_dereferencing :
    lineTransfer env f (Graph.straightLine p [Operation.dereferencing q stmt access read]) = (do
      modify fun log => (log.record q read.span).2
      pure (Procedure.new env.facts env.options
        (Graph.straightLine p [Operation.dereferencing q stmt access read])).bodyInput) := by
  set v := Procedure.new env.facts env.options (Graph.straightLine p [Operation.dereferencing q stmt access read])
  have hv : v.graph = Graph.straightLine p [Operation.dereferencing q stmt access read] := rfl
  -- the read is the receiver of the member access, so the access dereferences it
  have hsteps : [Operation.dereferencing q stmt access read].flatMap (·.visits false) =
      [(Operation.readOf q read, true), (.node access [(.receiver, Operation.readOf q read)], false),
        (Operation.dereferencing q stmt access read, false)] := by
    simp [Operation.dereferencing, Operation.statementOf, Operation.readOf, Operation.visits,
      Operation.visitsSlots, Slot.dereferencedBy, hacc]
  have hqt : q ∈ v.trackableParameters := v.mem_trackableParameters (by rw [hv]; exact hq) href rfl
  have hhaz := Procedure.isHazardous_bodyInput hpt hqt hc
  have hk : access.kind ≠ .invocation ∧ access.kind ≠ .objectCreation := by
    revert hacc
    cases access.kind <;> simp [OpKind.isMemberReference]
  unfold lineTransfer
  rw [Procedure.transfer_straightLine_body hv, hsteps]
  simp only [List.foldlM_cons, List.foldlM_nil]
  rw [v.visit_deref _ _ (by simp) (by simp),
    v.checkHazard_single (Procedure.locations_read hpt read hr (v.isTrackable_of_mem hqt)) hn hhaz]
  simp only [bind_pure, v.visit_plain _ (.node access [(.receiver, Operation.readOf q read)]) hk.1 hk.2,
    v.visit_plain _ (Operation.dereferencing q stmt access read) (by simp [Operation.dereferencing])
      (by simp [Operation.dereferencing])]
  rfl

/-- A procedure that dereferences its parameter `q` reports `q` at the read, and asks for no
summary. -/
theorem analyzeBody_dereferencing
    (hg : env.facts.graph? p = some (Graph.straightLine p [Operation.dereferencing q stmt access read]))
    (hb : 3 ≤ env.allowance p) (t : Session) :
    ∃ sol, (analyzeBody env f p).run t =
      ({ method := p, complete := true, dataflow := some sol, usages := ⟨[(q, read.span)]⟩ }, t) := by
  obtain ⟨sol, h⟩ := run_analyzeBody_straightLine env f p _ hg (by simp [Operation.dereferencing]) hb t
  rw [lineTransfer_dereferencing env f hacc hq href hc hpt hr hn, run_record, ofLog_record_empty] at h
  exact ⟨sol, h⟩

end Dereferencing

end Analysis

end NullGuard
