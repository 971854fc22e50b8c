import NullGuard.Proofs.Cellwise

/-!
# Parameters are blamed within their scope

A procedure tracks the reference-typed parameters of itself and of the procedures enclosing
it. A state is in scope (`Procedure.InScope`) when every key it holds is a tracked location
naming a cell of the entry state. The entry state is in scope, and every step of the analysis
keeps states in scope: a join holds the keys of what it joins, and a validation writes only
cells the state holds in a hazardous state, whatever the points-to facts say. A hazard is
recorded for a location in a hazardous state of a state in scope, or for a location a
dereferenced operation may refer to that is hazardous there, so for a tracked parameter.

`hazards_within_scope` puts this together for a whole solve, in any monad and with any
summaries: the entry state, every state a visit or a transfer returns, and every fact of the
answer are in scope, and every parameter of the summary is a reference-typed parameter of the
procedure or of one enclosing it.
-/

namespace NullGuard

namespace HazardLog

theorem mem_relocate {e : ParamRef × Option Span} {p : ParamRef} {site : Option Span} :
    ∀ {es : List (ParamRef × Option Span)}, e ∈ relocate es p site → e ∈ es ∨ e.1 = p
  | [], h => by simp [relocate] at h
  | (q, s) :: rest, h => by
    unfold relocate at h
    split at h
    · rcases List.mem_cons.mp h with rfl | h
      · exact .inr rfl
      · exact .inl (List.mem_cons_of_mem _ h)
    · rcases List.mem_cons.mp h with rfl | h
      · exact .inl List.mem_cons_self
      · rcases mem_relocate h with h | h
        · exact .inl (List.mem_cons_of_mem _ h)
        · exact .inr h

/-- A record adds an entry for its parameter and for no other. -/
theorem mem_record {log : HazardLog} {p : ParamRef} {site : Option Span} {e : ParamRef × Option Span}
    (h : e ∈ (log.record p site).2.entries) : e ∈ log.entries ∨ e.1 = p := by
  unfold record at h
  split at h
  · split at h
    · exact mem_relocate h
    · exact .inl h
  · rcases List.mem_append.mp h with h | h
    · exact .inl h
    · rw [List.mem_singleton] at h
      exact .inr (by rw [h])

end HazardLog

namespace Procedure

variable (v : Procedure)

/-- Every key of the state is a tracked location naming a cell the entry state holds. -/
def InScope (s : AnalysisState) : Prop :=
  ∀ k ∈ s.keys, v.tracks k = true ∧ v.initialState.contains k = true

/-- Every parameter with a recorded hazard is trackable. -/
def LogInScope (log : HazardLog) : Prop :=
  ∀ e ∈ log.entries, v.isTrackable (some e.1) = true

variable {v}

/-! ### States in scope -/

theorem InScope.tracks_of_contains {s : AnalysisState} (hs : v.InScope s) {l : Location}
    (hl : s.contains l) : v.tracks l = true := by
  obtain ⟨k, hk, hkl⟩ := AnalysisState.contains_iff.mp hl
  rw [← tracks_of_normal_eq hkl]
  exact (hs k hk).1

/-- A location a dereferenced operation may refer to, hazardous in a state in scope, is
tracked, even when the points-to facts name a location of another method. -/
theorem InScope.tracks_of_mem_notValidated {s : AnalysisState} (hs : v.InScope s) {op : Operation}
    {l : Location} (hl : l ∈ v.notValidated op s) : v.tracks l = true :=
  hs.tracks_of_contains (AnalysisState.contains_of_isHazardous
    (List.mem_filter.mp (List.mem_mergeSort.mp hl)).2)

theorem InScope.tracks_of_mem_hazardous {s : AnalysisState} (hs : v.InScope s) {l : Location}
    (hl : l ∈ s.hazardous) : v.tracks l = true := by
  unfold AnalysisState.hazardous at hl
  obtain ⟨e, he, rfl⟩ := List.mem_map.mp hl
  exact (hs e.1 (List.mem_map_of_mem (List.mem_filter.mp he).1)).1

theorem inScope_initialState : v.InScope v.initialState := by
  intro k hk
  refine ⟨?_, AnalysisState.contains_of_mem_keys hk⟩
  -- every write of the entry state goes through the tracked-location predicate
  unfold initialState at hk
  refine (List.foldlRecOn (motive := fun t : AnalysisState => t.tracks = v.tracks ∧
    (k ∈ t.keys → v.tracks k = true)) _ _ ⟨rfl, fun h => by simp [emptyState,
      AnalysisState.empty, AnalysisState.keys] at h⟩ (fun t ht p _ => ?_)).2 hk
  split
  · exact ht
  · refine ⟨by rw [AnalysisState.tracks_setAll, ht.1], fun hk' => ?_⟩
    rcases AnalysisState.mem_keys_setAll hk' with hk' | hk'
    · exact ht.2 hk'
    · exact ht.1 ▸ hk'

theorem inScope_emptyState : v.InScope v.emptyState := by
  intro k hk
  simp [emptyState, AnalysisState.empty, AnalysisState.keys] at hk

theorem InScope.merge {a b : AnalysisState} (ha : v.InScope a) (hb : v.InScope b) :
    v.InScope (a.merge b) := fun k hk =>
  (AnalysisState.mem_keys_merge hk).elim (ha k) (hb k)

theorem inScope_joinAll {xs : List AnalysisState} (hxs : ∀ x ∈ xs, v.InScope x) :
    v.InScope (v.domain.joinAll xs) :=
  List.foldlRecOn (motive := v.InScope) xs _ inScope_emptyState fun _ ht x hx => ht.merge (hxs x hx)

/-- A validation writes only cells the state holds in a hazardous state. -/
theorem InScope.validate {s : AnalysisState} (hs : v.InScope s) (op : Operation) :
    v.InScope (v.validate op s) := by
  have hkeys : (v.validate op s).keys = s.keys :=
    AnalysisState.keys_setAll_of_contains fun l hl =>
      AnalysisState.contains_of_isHazardous (List.mem_filter.mp (List.mem_mergeSort.mp hl)).2
  exact fun k hk => hs k (hkeys ▸ hk)

theorem InScope.reconcile {s : AnalysisState} (hs : v.InScope s) : v.InScope (v.reconcile s) := by
  unfold Procedure.reconcile
  refine List.foldlRecOn (motive := v.InScope) _ _ hs fun t ht p _ => ?_
  dsimp only
  split
  · exact ht
  · split
    · exact ht
    · exact ht
    · -- the escaped locations are hazardous cells the state holds
      have hkeys : (t.setAll ((v.paramLocations p).filter t.isHazardous) .validated).keys = t.keys :=
        AnalysisState.keys_setAll_of_contains fun l hl =>
          AnalysisState.contains_of_isHazardous (List.mem_filter.mp hl).2
      exact fun k hk => ht k (hkeys ▸ hk)

theorem InScope.callFlow {s : AnalysisState} (hs : v.InScope s) (callee : MethodId)
    (args : List Operation) : v.InScope (v.callFlow callee args s) := by
  unfold Procedure.callFlow
  split
  · split
    · exact hs.validate _
    · exact hs
  · exact hs

theorem InScope.visitFlow {s : AnalysisState} (hs : v.InScope s) (step : Operation × Bool) :
    v.InScope (v.visitFlow s step) := by
  unfold Procedure.visitFlow
  split
  · split
    · exact hs
    · exact hs.callFlow _ _
  · exact hs.callFlow _ _
  · exact hs

theorem InScope.flow {s : AnalysisState} (hs : v.InScope s) (b : BlockId) : v.InScope (v.flow b s) := by
  have hsteps : v.InScope ((v.steps b).foldl v.visitFlow s) :=
    List.foldlRecOn (motive := v.InScope) _ _ hs fun t ht step _ => ht.visitFlow step
  unfold Procedure.flow
  split
  · exact hsteps.reconcile
  · exact hsteps

/-! ### Hazards in scope -/

section Log

variable {m : Type → Type} [Monad m] [LawfulMonad m] [MonadAttach m] [LawfulMonadAttach m]
  (summaryOf : Option (MethodId → m (Option UsageMap)))

theorem record_keeps {site : Option Span} {ls : List Location} (hls : ∀ l ∈ ls, v.tracks l = true) :
    KeepsLog (m := m) v.LogInScope (record site ls) := by
  unfold record
  refine KeepsLog.forM _ ls fun l hl => ?_
  split
  · rename_i p hp
    refine KeepsLog.modify fun log hlog e he => ?_
    rcases HazardLog.mem_record he with he | he
    · exact hlog e he
    · have htr := hls l hl
      unfold tracks at htr
      rw [hp] at htr
      rw [he]
      exact htr
  · exact KeepsLog.pure _

theorem checkHazard_keeps {op : Operation} {ls : List Location} (hls : ∀ l ∈ ls, v.tracks l = true) :
    KeepsLog (m := m) v.LogInScope (v.checkHazard op ls) := by
  unfold checkHazard
  split
  · exact KeepsLog.pure _
  · exact record_keeps hls

/-- The hazard check after a call keeps the log in scope, from a state in scope. -/
theorem check_keeps {s : AnalysisState} (hs : v.InScope s) (op : Operation) (deref : Bool) :
    KeepsLog (m := m) v.LogInScope (if deref = true then
      v.checkHazard op (v.notValidated op s) >>= fun _ => pure s else pure s) := by
  split
  · exact (checkHazard_keeps fun _ hl => hs.tracks_of_mem_notValidated hl).bind fun _ => KeepsLog.pure _
  · exact KeepsLog.pure _

theorem callRegular_keeps {s : AnalysisState} (hs : v.InScope s) (callee : MethodId)
    (args : List Operation) : KeepsLog v.LogInScope (v.callRegular summaryOf callee args s) := by
  unfold callRegular
  dsimp only
  -- the validation rules return at once; only a call that asks for a summary records hazards
  split_ifs
  any_goals exact KeepsLog.pure _
  · -- the summary of a callee visible outside its assembly is not asked for
    cases summaryOf <;> exact KeepsLog.pure _
  · cases summaryOf with
    | none => exact KeepsLog.pure _
    | some lookup =>
      refine (KeepsLog.lift _).bind fun r => ?_
      cases r with
      | none => exact KeepsLog.pure _
      | some summary =>
        dsimp only
        split
        · exact KeepsLog.pure _
        · refine (KeepsLog.forIn _ _ _ fun a _ _ => ?_).bind fun _ => KeepsLog.pure _
          -- an argument bound to a parameter the summary lists is checked as a dereference
          split
          · split
            · exact (checkHazard_keeps fun _ hl => hs.tracks_of_mem_notValidated hl).bind
                fun _ => KeepsLog.pure _
            · exact KeepsLog.pure _
          · exact KeepsLog.pure _

theorem callNested_keeps {s : AnalysisState} (hs : v.InScope s) (callee : MethodId) :
    KeepsLog v.LogInScope (v.callNested summaryOf callee s) := by
  unfold callNested
  cases summaryOf with
  | none => exact KeepsLog.pure _
  | some lookup =>
    refine (KeepsLog.lift _).bind fun r => ?_
    cases r with
    | none => exact KeepsLog.pure _
    | some summary =>
      dsimp only
      split
      · exact KeepsLog.pure _
      · split
        · exact KeepsLog.pure _
        · refine (KeepsLog.forIn _ _ _ fun a _ _ => ?_).bind fun _ => KeepsLog.pure _
          -- a nested function's hazard is recorded for the caller's hazardous locations only
          refine KeepsLog.get.bind fun log => ?_
          split
          · refine (record_keeps fun l hl => ?_).bind fun _ => KeepsLog.pure _
            exact hs.tracks_of_mem_hazardous (List.mem_mergeSort.mp (List.mem_filter.mp hl).1)
          · exact KeepsLog.pure _

theorem visit_keeps {s : AnalysisState} (hs : v.InScope s) (step : Operation × Bool) :
    KeepsLog v.LogInScope (v.visit summaryOf s step) := by
  obtain ⟨op, deref⟩ := step
  unfold visit
  dsimp only
  generalize op.kind = k
  generalize op.info.method = callee?
  -- the call, then the hazard check on the state the call returns, which is in scope
  split
  · split
    · exact KeepsLog.bind_returns (v.callNested_returns summaryOf _ s) (callNested_keeps summaryOf hs _)
        (check_keeps hs op deref)
    · exact KeepsLog.bind_returns (v.callRegular_returns summaryOf _ _ s)
        (callRegular_keeps summaryOf hs _ _) (check_keeps (hs.callFlow _ _) op deref)
  · exact KeepsLog.bind_returns (v.callRegular_returns summaryOf _ _ s)
      (callRegular_keeps summaryOf hs _ _) (check_keeps (hs.callFlow _ _) op deref)
  · exact KeepsLog.bind_returns (Returns.pure s) (KeepsLog.pure s) (check_keeps hs op deref)

theorem transfer_keeps {s : AnalysisState} (hs : v.InScope s) (b : BlockId) :
    KeepsLog v.LogInScope (v.transfer summaryOf b s) := by
  unfold transfer
  exact (KeepsLog.foldlM (v.visit_returns summaryOf) v.InScope (fun _ _ h => h.visitFlow _)
    (fun _ _ h => visit_keeps summaryOf h _) _ s hs).bind fun _ => KeepsLog.pure _

end Log

/-! ### The whole solve -/

section Solve

variable {g : Graph} {order : Array BlockId}

/-- Every fact a run has found is in scope. -/
def FactsInScope (v : Procedure) (st : Dataflow.Progress AnalysisState) : Prop :=
  ∀ r x, (st.inAt r = some x ∨ st.outAt r = some x) → v.InScope x

/-- An input joins the entry state and facts found, all in scope. -/
theorem FactsInScope.input {st : Dataflow.Progress AnalysisState} (hst : FactsInScope v st) (r : Nat) :
    v.InScope (st.input g v.domain v.initialState order r) := by
  unfold Dataflow.Progress.input
  refine inScope_joinAll fun x hx => ?_
  rw [Dataflow.Progress.incoming_eq] at hx
  rcases List.mem_append.mp hx with hx | hx
  · split at hx
    · rw [List.mem_singleton.mp hx]
      exact inScope_initialState
    · cases hx
  · obtain ⟨p, -, hpx⟩ := List.mem_filterMap.mp hx
    obtain ⟨rp, -, hrp⟩ := Option.bind_eq_some_iff.mp hpx
    exact hst rp x (.inr hrp)

theorem FactsInScope.visit {st : Dataflow.Progress AnalysisState} (hst : FactsInScope v st) (r : Nat)
    (rest : List Nat) : FactsInScope v (st.visit g v.domain v.flow v.initialState order r rest) := by
  intro r' x hx
  unfold Dataflow.Progress.visit at hx
  rcases hx with hx | hx
  · rcases Dataflow.Progress.inAt_advance_eq_some hx with ⟨-, rfl⟩ | hx
    · exact hst.input r
    · exact hst r' x (.inl hx)
  · rcases Dataflow.Progress.outAt_advance_eq_some hx with ⟨-, rfl⟩ | hx
    · exact (hst.input r).flow _
    · exact hst r' x (.inr hx)

theorem factsInScope_start (n : Nat) : FactsInScope v (Dataflow.Progress.start n) :=
  fun r x hx => by simp at hx

/-- Every input a solve visits is in scope. -/
theorem inScope_of_mem_solveTrace {budget : Nat} :
    ∀ w ∈ Dataflow.solveTrace g v.domain v.flow v.initialState budget, v.InScope w.2 :=
  Dataflow.forall_mem_trace _ (FactsInScope v) (fun w => v.InScope w.2)
    (fun _ r rest _ h => h.visit r rest) (fun _ r _ _ h => h.input r) budget _ (factsInScope_start _)

/-- Every fact of an answer of the pure solve is in scope. -/
theorem inScope_of_solve {budget : Nat} {sol : Dataflow.Solution AnalysisState}
    (hs : Id.run (Dataflow.solve g v.domain (fun b x => pure (v.flow b x)) v.initialState budget) = .ok sol)
    (b : BlockId) (x : AnalysisState) (hx : sol.inAt b = some x ∨ sol.outAt b = some x) : v.InScope x := by
  obtain ⟨st, hrun, hin, hout⟩ := Dataflow.solve_pure_ok hs
  obtain ⟨hst, -⟩ := Dataflow.run_pure_invariant g v.domain v.flow v.initialState _ (FactsInScope v)
    (fun _ r rest _ h => h.visit r rest) budget _ st hrun (factsInScope_start _)
  rw [hin, hout] at hx
  rcases hx with hx | hx
  · obtain ⟨r, -, hr⟩ := Option.bind_eq_some_iff.mp hx
    exact hst r x (.inl hr)
  · obtain ⟨r, -, hr⟩ := Option.bind_eq_some_iff.mp hx
    exact hst r x (.inr hr)

variable {m : Type → Type} [Monad m] [LawfulMonad m] [MonadAttach m] [LawfulMonadAttach m]
  (summaryOf : Option (MethodId → m (Option UsageMap)))

/-- A solve records hazards only for trackable parameters: it runs the transfer from inputs in
scope. -/
theorem solve_keeps (budget : Nat) :
    KeepsLog v.LogInScope (Dataflow.solve g v.domain (v.transfer summaryOf) v.initialState budget) := by
  rw [Dataflow.solve_factor (f := v.flow) _ (v.transfer_returns summaryOf)]
  refine (KeepsLog.forM _ _ fun w hw => ?_).bind fun _ => KeepsLog.pure _
  exact (transfer_keeps summaryOf (inScope_of_mem_solveTrace w hw) w.1).map _

end Solve

/-- No parameter is blamed outside its scope. -/
theorem hazards_within_scope {m : Type → Type} [Monad m] [LawfulMonad m] [MonadAttach m]
    [LawfulMonadAttach m] (facts : Facts) (options : Options) (g : Graph)
    (summaryOf : Option (MethodId → m (Option UsageMap))) (budget : Nat) :
    let v := Procedure.new facts options g
    v.InScope v.initialState ∧
      (∀ s step, v.InScope s → ∃ s', Returns (v.visit summaryOf s step) s' ∧ v.InScope s') ∧
      (∀ b s, v.InScope s → ∃ s', Returns (v.transfer summaryOf b s) s' ∧ v.InScope s') ∧
      ∀ res log, MonadAttach.CanReturn
          ((Dataflow.solve g v.domain (v.transfer summaryOf) v.initialState budget).run {}) (res, log) →
        (∀ sol, res = .ok sol → ∀ b x, (sol.inAt b = some x ∨ sol.outAt b = some x) → v.InScope x) ∧
        ∀ q ∈ (UsageMap.ofLog v.prog log).parameters,
          facts.program.paramIsReference q = true ∧ q.method ∈ facts.program.enclosing g.method := by
  intro v
  refine ⟨inScope_initialState, fun s step hs => ⟨_, v.visit_returns summaryOf s step, hs.visitFlow step⟩,
    fun b s hs => ⟨_, v.transfer_returns summaryOf b s, hs.flow b⟩, fun res log hrun => ⟨?_, ?_⟩⟩
  · -- the solve answers what the pure solve answers
    intro sol hsol
    have hres := hrun
    rw [Dataflow.solve_factor (f := v.flow) _ (v.transfer_returns summaryOf)] at hres
    exact inScope_of_solve ((eq_of_canReturn_bind_pure hres).symm.trans hsol)
  · intro q hq
    have hlog := solve_keeps summaryOf budget {} res log (fun e he => by simp at he) hrun
    obtain ⟨e, he, rfl⟩ := UsageMap.mem_parameters_ofList_iff.mp hq
    have htr := hlog e he
    simp only [isTrackable, Bool.and_eq_true, List.contains_iff_mem] at htr
    exact htr

end Procedure

/-! ### A procedure that reads its parameter in a loop -/

/-- A method `f` of a reference type `T`, with one parameter `x : T`. -/
def oneParamFacts : Facts where
  program :=
    { types := #[{ name := "T" }],
      methods := #[{ name := "f", owner := 0, params := [{ name := "x", type := 0 }] }] }

/-- `x.P`: a property read with `x` as its receiver. -/
def readParam : Operation :=
  .node { uid := 2, kind := .propertyReference }
    [(.receiver, .node { uid := 1, kind := .parameterReference, parameter := some ⟨0, 0⟩ } [])]

/-- The graph of `f`: `entry → body → exit`, where the body reads `x.P` and loops on itself. -/
def readLoopGraph : Graph :=
  let (g, b) := (Graph.new 0).addBlock [readParam]
  ((g.addEdge g.entry b .fallThrough).addEdge b b .backEdge).addEdge b g.exit .returnEdge

/-- The state where `x` is not validated, as every block of `f` sees it. -/
def xUnvalidated : AnalysisState where
  entries := [(.param ⟨0, 0⟩, .notValidated)]
  tracks := (Procedure.new oneParamFacts {} readLoopGraph).tracks

/-- The solve of `f` records the read of `x` once and finds `x` unvalidated everywhere; its
summary names `x`, a reference-typed parameter of `f`. -/
theorem hazards_within_scope_readLoop :
    MonadAttach.CanReturn ((Dataflow.solve readLoopGraph (Procedure.new oneParamFacts {} readLoopGraph).domain
        ((Procedure.new oneParamFacts {} readLoopGraph).transfer (m := Id) none)
        (Procedure.new oneParamFacts {} readLoopGraph).initialState 10).run {})
      (.ok { order := #[0, 2, 1], ordinals := #[0, 2, 1].map readLoopGraph.ordinal, exitRank := some 2,
             ins := #[some xUnvalidated, some xUnvalidated, some xUnvalidated],
             outs := #[some xUnvalidated, some xUnvalidated, some xUnvalidated], iterations := 4 },
        { entries := [(⟨0, 0⟩, none)] }) ∧
    ∀ q ∈ (UsageMap.ofLog oneParamFacts.program { entries := [(⟨0, 0⟩, none)] }).parameters,
      oneParamFacts.program.paramIsReference q = true ∧
        q.method ∈ oneParamFacts.program.enclosing readLoopGraph.method :=
  have hrun : MonadAttach.CanReturn ((Dataflow.solve readLoopGraph
      (Procedure.new oneParamFacts {} readLoopGraph).domain
      ((Procedure.new oneParamFacts {} readLoopGraph).transfer (m := Id) none)
      (Procedure.new oneParamFacts {} readLoopGraph).initialState 10).run {})
      (.ok { order := #[0, 2, 1], ordinals := #[0, 2, 1].map readLoopGraph.ordinal, exitRank := some 2,
             ins := #[some xUnvalidated, some xUnvalidated, some xUnvalidated],
             outs := #[some xUnvalidated, some xUnvalidated, some xUnvalidated], iterations := 4 },
        { entries := [(⟨0, 0⟩, none)] }) := by
    with_unfolding_all rfl
  ⟨hrun, ((Procedure.hazards_within_scope oneParamFacts {} readLoopGraph none 10).2.2.2 _ _ hrun).2⟩

end NullGuard
