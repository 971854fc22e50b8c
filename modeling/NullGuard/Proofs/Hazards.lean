import NullGuard.Analysis.Run
import NullGuard.Proofs.Scope

/-!
# Hazards found from the final facts

The solver visits a block many times before its facts settle, and the transfer records hazards
at every visit, from inputs that may still be too low. The summary of a procedure is still
exactly what the transfer finds from the final facts: run once on each block the solver
reached, from that block's final input, it records the same parameters as the whole run.

`Procedure.blockHazards` lists the parameters the transfer of a block records from a state, when
callee summaries are answered from a fixed table, by the three rules of the transfer:

* an operation whose parent dereferences it exposes the parameters of the hazardous locations
  its value may refer to, unless it is known to be non-null (`Procedure.exposed`);
* a call whose callee's summary is consulted exposes each argument bound to a parameter in
  that summary in the same way (`Procedure.regularHazards`);
* a call of a nested function blames each parameter of its summary that has a hazardous
  location in the state (`Procedure.nestedHazards`).

Two facts carry the proof. Every step of the transfer adds exactly these parameters to the keys
of the log, whatever else the summary requests do (`transfer_adds`). And what is found from a
state is found from every state above it, since the transfer acts on each cell alone and a
state above a hazardous one is hazardous (`mem_blockHazards_of_le`). Every input the solver
visits is below the final input of its block, and each final input is one of the visits.
-/

namespace NullGuard

namespace Procedure

variable (v : Procedure)

/-! ### The hazards of a step -/

/-- The parameters of the hazardous locations an operation's value may refer to, unless the
operation is known to be non-null. -/
def exposed (op : Operation) (s : AnalysisState) : List ParamRef :=
  if v.facts.nulls.ofNode op.info.uid = .notNull then []
  else ((v.locations op).filter s.isHazardous).filterMap Location.parameter?

/-- Whether a call of a method that is not a nested function consults the callee's summary: the
callee is not a method of the string type, nor one of a type deriving from the exception type
taking an argument, and is not visible outside its assembly. -/
def consultsSummary (callee : MethodId) (args : List Operation) : Bool :=
  let info := v.prog.method callee
  !(v.stringType.isSome && v.stringType == some info.owner) &&
    !(!info.params.isEmpty && !args.isEmpty && v.exceptionType.isSome &&
      v.prog.derivesFrom info.owner v.exceptionType) &&
    !v.prog.methodVisible callee

/-- The hazards of a call of a method that is not a nested function: each argument bound to a
parameter in the callee's summary exposes its locations. -/
def regularHazards (answers : Option (MethodId → Option UsageMap)) (callee : MethodId)
    (args : List Operation) (s : AnalysisState) : List ParamRef :=
  if v.consultsSummary callee args then
    match answers.bind (· callee) with
    | some summary =>
      ((args.zip (List.range args.length)).filter fun e =>
        (v.boundParameter callee args e.2 e.1).any summary.contains).flatMap fun e => v.exposed e.1 s
    | none => []
  else []

/-- The hazards of a call of a nested function: the parameters of its summary with a hazardous
location in the state. -/
def nestedHazards (answers : Option (MethodId → Option UsageMap)) (callee : MethodId)
    (s : AnalysisState) : List ParamRef :=
  match answers.bind (· callee) with
  | some summary => summary.parameters.filter fun p => s.hazardous.any (·.parameter? == some p)
  | none => []

/-- The hazards of the call an operation makes, if it makes one. -/
def callHazards (answers : Option (MethodId → Option UsageMap)) (s : AnalysisState) (op : Operation) :
    List ParamRef :=
  match op.kind, op.info.method with
  | .invocation, some callee =>
    if v.prog.isNested callee then nestedHazards answers callee s
    else v.regularHazards answers callee op.arguments s
  | .objectCreation, some callee => v.regularHazards answers callee op.arguments s
  | _, _ => []

/-- The hazards of a visit: its call's, from the state before the call, then, when the parent
dereferences the operation, those it exposes in the state after the call. -/
def visitHazards (answers : Option (MethodId → Option UsageMap)) (s : AnalysisState)
    (step : Operation × Bool) : List ParamRef :=
  v.callHazards answers s step.1 ++ if step.2 then v.exposed step.1 (v.visitFlow s step) else []

/-- The hazards of visiting steps in order from a state. -/
def walkHazards (answers : Option (MethodId → Option UsageMap)) :
    AnalysisState → List (Operation × Bool) → List ParamRef
  | _, [] => []
  | s, step :: steps => v.visitHazards answers s step ++ walkHazards answers (v.visitFlow s step) steps

/-- The hazards the transfer of a block records from a state. -/
def blockHazards (answers : Option (MethodId → Option UsageMap)) (b : BlockId) (s : AnalysisState) :
    List ParamRef :=
  v.walkHazards answers s (v.steps b)

variable {v}

theorem mem_exposed {op : Operation} {s : AnalysisState} {p : ParamRef} :
    p ∈ v.exposed op s ↔ v.facts.nulls.ofNode op.info.uid ≠ .notNull ∧
      ∃ l ∈ v.locations op, s.isHazardous l = true ∧ l.parameter? = some p := by
  unfold exposed
  split
  · rename_i h
    simp [h]
  · rename_i h
    simp only [List.mem_filterMap, List.mem_filter, h, ne_eq, not_false_eq_true, true_and]
    exact ⟨fun ⟨l, ⟨hl, hhz⟩, hp⟩ => ⟨l, hl, hhz, hp⟩, fun ⟨l, hl, hhz, hp⟩ => ⟨l, ⟨hl, hhz⟩, hp⟩⟩

/-! ### Each step adds its hazards to the log -/

/-- A loop that adds keys for the elements passing a test adds those of the filtered list. -/
theorem flatMap_ite_eq_flatMap_filter {γ : Type} (c : γ → Bool) (f : γ → List ParamRef) (l : List γ) :
    l.flatMap (fun e => if c e = true then f e else []) = (l.filter c).flatMap f := by
  induction l with
  | nil => rfl
  | cons e l ih =>
    by_cases h : c e = true <;> simp [h, ih]

section Adds

variable {m : Type → Type} [Monad m] [LawfulMonad m] [MonadAttach m] [LawfulMonadAttach m]

theorem record_adds (site : Option Span) (ls : List Location) :
    AddsKeys (ls.filterMap Location.parameter?) (record site ls : VisitM m Unit) := by
  unfold record
  refine (AddsKeys.forM _ (fun l => l.parameter?.toList) ls fun l _ => ?_).congr fun p => by
    simp [List.mem_flatMap, List.mem_filterMap]
  cases l.parameter? with
  | none => exact AddsKeys.pure _
  | some p => exact AddsKeys.modify_record p site

theorem check_adds (op : Operation) (s : AnalysisState) :
    AddsKeys (v.exposed op s) (v.checkHazard op (v.notValidated op s) : VisitM m Unit) := by
  unfold checkHazard
  split
  · rename_i hskip
    -- nothing is recorded: no location is hazardous, or the operation is not null
    refine (AddsKeys.pure ()).congr fun p => ⟨fun h => (List.not_mem_nil h).elim, fun hp => ?_⟩
    obtain ⟨hnn, l, hl, hhz, -⟩ := mem_exposed.mp hp
    rcases Bool.or_eq_true _ _ ▸ hskip with hempty | hnull
    · have hmem : l ∈ v.notValidated op s := by
        rw [notValidated, List.mem_mergeSort, List.mem_filter]
        exact ⟨hl, hhz⟩
      rw [List.isEmpty_iff.mp hempty] at hmem
      cases hmem
    · exact absurd (beq_iff_eq.mp hnull) hnn
  · rename_i hrec
    refine (record_adds op.info.span _).congr fun p => ?_
    have hnn : v.facts.nulls.ofNode op.info.uid ≠ .notNull := fun h => hrec (by simp [h])
    rw [mem_exposed, List.mem_filterMap]
    simp only [notValidated, List.mem_mergeSort, List.mem_filter]
    constructor
    · rintro ⟨l, ⟨hl, hhz⟩, hp⟩
      exact ⟨hnn, l, hl, hhz, hp⟩
    · rintro ⟨-, l, hl, hhz, hp⟩
      exact ⟨l, ⟨hl, hhz⟩, hp⟩

/-- The hazard check after a call adds what the operation exposes after the call. -/
theorem deref_adds (op : Operation) (deref : Bool) (s : AnalysisState) :
    AddsKeys (if deref = true then v.exposed op s else [])
      (if deref = true then v.checkHazard op (v.notValidated op s) >>= fun _ => pure s else pure s :
        VisitM m AnalysisState) := by
  refine AddsKeys.ite _ ?_ (AddsKeys.pure s)
  exact ((check_adds op s).bind fun _ => AddsKeys.pure s).congr fun p => by simp

/-- A call that returns `s'`, followed by the hazard check, adds the call's keys and what the
operation exposes in `s'`. -/
theorem call_check_adds {x : VisitM m AnalysisState} {s' : AnalysisState} {ks : List ParamRef}
    (hret : Returns x s') (hx : AddsKeys ks x) (op : Operation) (deref : Bool) :
    AddsKeys (ks ++ if deref = true then v.exposed op s' else [])
      (x >>= fun s => if deref = true then v.checkHazard op (v.notValidated op s) >>= (fun _ => pure s)
        else pure s) :=
  AddsKeys.bind_returns hret hx (deref_adds op deref s')

variable {summaryOf : Option (MethodId → m (Option UsageMap))} {answers : Option (MethodId → Option UsageMap)}
  (hfix : Option.Rel (fun lookup answer => ∀ c, Returns (lookup c) (answer c)) summaryOf answers)
include hfix

theorem regular_adds (callee : MethodId) (args : List Operation) (s : AnalysisState) :
    AddsKeys (v.regularHazards answers callee args s) (v.callRegular summaryOf callee args s) := by
  unfold regularHazards
  by_cases hc : v.consultsSummary callee args = true
  · rw [if_pos hc]
    unfold consultsSummary at hc
    simp only [Bool.and_eq_true, Bool.not_eq_true'] at hc
    obtain ⟨⟨hstr, hexc⟩, hvis⟩ := hc
    unfold callRegular
    dsimp only
    rw [if_neg (by simp [hstr]), if_neg (by simp [hexc])]
    cases hfix with
    | none => exact AddsKeys.pure s
    | @some lookup answer h =>
      dsimp only
      rw [if_neg (by simp [hvis])]
      refine AddsKeys.lift_bind (h callee) ?_
      simp only [Option.bind_some]
      cases answer callee with
      | none => exact AddsKeys.pure s
      | some summary =>
        dsimp only
        by_cases hempty : summary.isEmpty = true
        · -- an empty summary lists no parameter an argument could be bound to
          rw [if_pos hempty]
          have hnone : ∀ o : Option ParamRef, o.any summary.contains = false := fun o => by
            unfold UsageMap.contains
            rw [List.isEmpty_iff.mp hempty]
            cases o <;> rfl
          refine (AddsKeys.pure s).congr fun p => ?_
          simp [hnone]
        · rw [if_neg hempty]
          refine ((AddsKeys.forIn_yield _ (fun e => if (v.boundParameter callee args e.2 e.1).any summary.contains
              then v.exposed e.1 s else []) _ fun e _ => ?_).bind fun _ => AddsKeys.pure s).congr fun p => ?_
          · obtain ⟨arg, i⟩ := e
            dsimp only
            cases v.boundParameter callee args i arg with
            | none => exact ⟨Returns.pure _, AddsKeys.pure _⟩
            | some q =>
              dsimp only
              by_cases hq : summary.contains q = true
              · rw [if_pos hq]
                exact ⟨Returns.bind_const fun _ => Returns.pure _,
                  ((check_adds arg s).bind fun _ => AddsKeys.pure _).congr fun p => by simp [hq]⟩
              · rw [if_neg hq]
                exact ⟨Returns.pure _, (AddsKeys.pure _).congr fun p => by simp [hq]⟩
          · rw [List.append_nil, flatMap_ite_eq_flatMap_filter]
  · -- the call returns before any summary is asked for
    rw [if_neg hc]
    unfold consultsSummary at hc
    unfold callRegular
    dsimp only
    by_cases hstr : (v.stringType.isSome && v.stringType == some (v.prog.method callee).owner) = true
    · rw [if_pos hstr]
      split <;> exact AddsKeys.pure _
    · rw [if_neg hstr]
      by_cases hexc : (!(v.prog.method callee).params.isEmpty && !args.isEmpty && v.exceptionType.isSome &&
          v.prog.derivesFrom (v.prog.method callee).owner v.exceptionType) = true
      · rw [if_pos hexc]
        split_ifs <;> exact AddsKeys.pure _
      · rw [if_neg hexc]
        have hvis : v.prog.methodVisible callee = true := by simp_all
        cases summaryOf with
        | none => exact AddsKeys.pure _
        | some lookup =>
          dsimp only
          rw [if_pos hvis]
          exact AddsKeys.pure _

theorem nested_adds (callee : MethodId) (s : AnalysisState) :
    AddsKeys (nestedHazards answers callee s) (v.callNested summaryOf callee s) := by
  unfold callNested nestedHazards
  cases hfix with
  | none => exact AddsKeys.pure s
  | @some lookup answer h =>
    refine AddsKeys.lift_bind (h callee) ?_
    simp only [Option.bind_some]
    cases answer callee with
    | none => exact AddsKeys.pure s
    | some summary =>
      dsimp only
      by_cases hempty : summary.isEmpty = true
      · rw [if_pos hempty]
        refine (AddsKeys.pure s).congr fun p => ?_
        simp [UsageMap.parameters, List.isEmpty_iff.mp hempty]
      · rw [if_neg hempty]
        by_cases hhaz : (s.hazardous.mergeSort fun a b => !v.locationBefore b a).isEmpty = true
        · -- no hazardous location: no parameter of the summary is blamed
          rw [if_pos hhaz]
          have hnil : s.hazardous = [] := by
            have hsorted : (s.hazardous.mergeSort fun a b => !v.locationBefore b a).length = 0 := by
              rw [List.isEmpty_iff.mp hhaz, List.length_nil]
            rwa [List.length_mergeSort, List.length_eq_zero_iff] at hsorted
          refine (AddsKeys.pure s).congr fun p => ?_
          simp [hnil]
        · rw [if_neg hhaz]
          refine ((AddsKeys.forIn_yield _ (fun e => if s.hazardous.any (·.parameter? == some e.1) then [e.1]
              else []) _ fun e _ => ?_).bind fun _ => AddsKeys.pure s).congr fun p => ?_
          · obtain ⟨q, site⟩ := e
            dsimp only
            -- the locations blamed on `q` all belong to `q`
            have hrec := (record_adds (m := m) site ((s.hazardous.mergeSort fun a b => !v.locationBefore b a).filter
              fun l => l.parameter? == some q)).bind fun _ => AddsKeys.pure (ForInStep.yield PUnit.unit)
            refine ⟨Returns.bind_const fun _ => ?_, (AddsKeys.unless_contains hrec ?_ _).congr fun p => ?_⟩
            · split
              · exact Returns.bind_const fun _ => Returns.pure _
              · exact Returns.pure _
            · intro p hp
              simp only [List.append_nil, List.mem_filterMap, List.mem_filter, beq_iff_eq] at hp
              obtain ⟨l, ⟨-, hlq⟩, hlp⟩ := hp
              exact Option.some.inj (hlp.symm.trans hlq)
            · simp only [List.append_nil, List.mem_filterMap, List.mem_filter, List.mem_mergeSort, beq_iff_eq]
              constructor
              · rintro ⟨l, ⟨hl, hlq⟩, hlp⟩
                rw [if_pos (List.any_eq_true.mpr ⟨l, hl, by simp [hlq]⟩), List.mem_singleton]
                exact Option.some.inj (hlp.symm.trans hlq)
              · intro hp
                split at hp
                · rename_i hany
                  obtain ⟨l, hl, hlq⟩ := List.any_eq_true.mp hany
                  rw [List.mem_singleton.mp hp]
                  exact ⟨l, ⟨hl, beq_iff_eq.mp hlq⟩, beq_iff_eq.mp hlq⟩
                · exact (List.not_mem_nil hp).elim
          · rw [List.append_nil, flatMap_ite_eq_flatMap_filter, UsageMap.parameters, List.filter_map]
            simp [Function.comp_def]

theorem visit_adds (s : AnalysisState) (step : Operation × Bool) :
    AddsKeys (v.visitHazards answers s step) (v.visit summaryOf s step) := by
  obtain ⟨op, deref⟩ := step
  unfold visit visitHazards callHazards visitFlow
  dsimp only
  generalize op.kind = k
  generalize op.info.method = callee?
  -- only an invocation or a creation with a resolved callee calls anything
  cases callee? with
  | none => cases k <;> exact call_check_adds (Returns.pure s) (AddsKeys.pure s) op deref
  | some callee =>
    cases k
    case invocation =>
      dsimp only
      by_cases hn : v.prog.isNested callee = true
      · simp only [hn, if_true]
        exact call_check_adds (v.callNested_returns summaryOf _ s) (nested_adds hfix _ s) op deref
      · simp only [hn, if_false, Bool.false_eq_true]
        exact call_check_adds (v.callRegular_returns summaryOf _ _ s) (regular_adds hfix _ _ s) op deref
    case objectCreation =>
      exact call_check_adds (v.callRegular_returns summaryOf _ _ s) (regular_adds hfix _ _ s) op deref
    all_goals exact call_check_adds (Returns.pure s) (AddsKeys.pure s) op deref

theorem walk_adds : ∀ (steps : List (Operation × Bool)) (s : AnalysisState),
    AddsKeys (v.walkHazards answers s steps) (steps.foldlM (v.visit summaryOf) s)
  | [], s => AddsKeys.pure s
  | step :: steps, s => by
    rw [List.foldlM_cons]
    exact AddsKeys.bind_returns (v.visit_returns summaryOf s step) (visit_adds hfix s step) (walk_adds steps _)

/-- The transfer of a block adds to the log exactly the hazards of the block from its input. -/
theorem transfer_adds (b : BlockId) (s : AnalysisState) :
    AddsKeys (v.blockHazards answers b s) (v.transfer summaryOf b s) := by
  unfold transfer blockHazards steps
  exact ((walk_adds hfix _ s).bind fun _ => AddsKeys.pure _).congr fun p => by simp

/-- A solve adds to the log exactly the hazards of the blocks it visits, from the inputs it
visits them with. -/
theorem solve_adds (g : Graph) (budget : Nat) :
    AddsKeys ((Dataflow.solveTrace g v.domain v.flow v.initialState budget).flatMap fun w =>
      v.blockHazards answers w.1 w.2) (Dataflow.solve g v.domain (v.transfer summaryOf) v.initialState budget) := by
  rw [Dataflow.solve_factor (v.transfer summaryOf) (v.transfer_returns summaryOf)]
  exact ((AddsKeys.forM _ _ _ fun w _ => (transfer_adds hfix w.1 w.2).map _).bind fun _ =>
    AddsKeys.pure _).congr fun p => by simp

end Adds

/-! ### Hazards only grow with the state -/

section Mono

variable {answers : Option (MethodId → Option UsageMap)} {a b : AnalysisState}
  (hab : ∀ l, (a.get l).le (b.get l) = true)
include hab

theorem mem_exposed_of_le {op : Operation} {p : ParamRef} (hp : p ∈ v.exposed op a) : p ∈ v.exposed op b := by
  obtain ⟨hnn, l, hl, hhz, hlp⟩ := mem_exposed.mp hp
  exact mem_exposed.mpr ⟨hnn, l, hl, Validation.isHazardous_of_le (hab l) hhz, hlp⟩

theorem mem_regularHazards_of_le {callee : MethodId} {args : List Operation} {p : ParamRef}
    (hp : p ∈ v.regularHazards answers callee args a) : p ∈ v.regularHazards answers callee args b := by
  unfold regularHazards at hp ⊢
  split at hp
  · rw [if_pos ‹_›]
    revert hp
    cases answers.bind (· callee) with
    | none => exact id
    | some summary =>
      simp only [List.mem_flatMap]
      rintro ⟨e, he, hp⟩
      exact ⟨e, he, mem_exposed_of_le hab hp⟩
  · exact (List.not_mem_nil hp).elim

theorem mem_nestedHazards_of_le (ha : a.Distinct) {callee : MethodId} {p : ParamRef}
    (hp : p ∈ nestedHazards answers callee a) : p ∈ nestedHazards answers callee b := by
  unfold nestedHazards at hp ⊢
  revert hp
  cases answers.bind (· callee) with
  | none => exact id
  | some summary =>
    simp only [List.mem_filter, List.any_eq_true, beq_iff_eq]
    rintro ⟨hp, l, hl, hlp⟩
    -- the cell of `l` is hazardous in `b` too, listed under a spelling of the same parameter
    have hhz := Validation.isHazardous_of_le (hab l) (ha.isHazardous_of_mem_hazardous hl)
    obtain ⟨k, hk, hkl⟩ := AnalysisState.exists_mem_hazardous hhz
    refine ⟨hp, k, hk, ?_⟩
    rw [← Location.parameter?_normal k, hkl, Location.parameter?_normal]
    exact hlp

theorem mem_callHazards_of_le (ha : a.Distinct) {op : Operation} {p : ParamRef}
    (hp : p ∈ v.callHazards answers a op) : p ∈ v.callHazards answers b op := by
  unfold callHazards at hp ⊢
  revert hp
  generalize op.kind = k
  generalize op.info.method = callee?
  cases callee? with
  | none => cases k <;> exact id
  | some callee =>
    cases k
    case invocation =>
      dsimp only
      by_cases hn : v.prog.isNested callee = true
      · rw [if_pos hn, if_pos hn]
        exact mem_nestedHazards_of_le hab ha
      · rw [if_neg hn, if_neg hn]
        exact mem_regularHazards_of_le hab
    case objectCreation => exact mem_regularHazards_of_le hab
    all_goals exact id

end Mono

/-- What the walk finds from a state of the procedure it finds from every state above it. -/
theorem mem_walkHazards_of_le {answers : Option (MethodId → Option UsageMap)} {p : ParamRef} :
    ∀ (steps : List (Operation × Bool)) (a b : AnalysisState), a.tracks = v.tracks → b.tracks = v.tracks →
      a.Distinct → (∀ l, (a.get l).le (b.get l) = true) →
      p ∈ v.walkHazards answers a steps → p ∈ v.walkHazards answers b steps
  | [], _, _, _, _, _, _, hp => hp
  | step :: steps, a, b, ha, hb, hda, hab, hp => by
    have hflow := validatesCells_visitFlow (v := v) step
    -- the steps keep both states the procedure's, the first below the second
    have hab' := hflow.get_le ha hb hab
    unfold walkHazards visitHazards at hp ⊢
    rcases List.mem_append.mp hp with hp | hp
    · refine List.mem_append_left _ ?_
      rcases List.mem_append.mp hp with hp | hp
      · exact List.mem_append_left _ (mem_callHazards_of_le hab hda hp)
      · refine List.mem_append_right _ ?_
        split at hp
        · rw [if_pos ‹_›]
          exact mem_exposed_of_le hab' hp
        · exact (List.not_mem_nil hp).elim
    · exact List.mem_append_right _ (mem_walkHazards_of_le steps _ _ (hflow.tracks ha) (hflow.tracks hb)
        (hflow.distinct ha hda) hab' hp)

theorem mem_blockHazards_of_le {answers : Option (MethodId → Option UsageMap)} {x y : v.Fact}
    (hle : v.factDomain.le x y) (b : BlockId) {p : ParamRef} (hp : p ∈ v.blockHazards answers b x.state) :
    p ∈ v.blockHazards answers b y.state :=
  mem_walkHazards_of_le _ _ _ x.tracks_eq y.tracks_eq x.distinct (factDomain_le_iff.mp hle) hp

/-! ### The visits of the solve -/

theorem initialState_fact : v.initialState.tracks = v.tracks ∧ v.initialState.Distinct := by
  unfold initialState
  refine List.foldlRecOn (motive := fun s : AnalysisState => s.tracks = v.tracks ∧ s.Distinct) _ _
    ⟨rfl, AnalysisState.distinct_empty _⟩ fun s hs p _ => ?_
  dsimp only
  split
  · exact hs
  · exact ⟨by rw [AnalysisState.tracks_setAll, hs.1], hs.2.setAll _ _⟩

variable (v) in
/-- The entry state as a state of the procedure. -/
def initialFact : v.Fact := ⟨v.initialState, initialState_fact.1, initialState_fact.2⟩

/-- Every input the solve visits a block with, and the block's final input, are states of the
procedure, the first below the second. -/
theorem le_final_of_mem_solveTrace {g : Graph} {budget : Nat} {sol : Dataflow.Solution AnalysisState}
    (hs : Id.run (Dataflow.solve g v.domain (fun b x => pure (v.flow b x)) v.initialState budget) = .ok sol) :
    ∀ w ∈ Dataflow.solveTrace g v.domain v.flow v.initialState budget,
      ∃ x y : v.Fact, w.2 = x.state ∧ sol.inAt w.1 = some y.state ∧ v.factDomain.le x y := by
  -- the solve runs on the procedure's states, where the solver's theory applies
  have hmap : Id.run (Dataflow.solve g v.domain (fun b x => pure (v.flow b x)) v.initialState budget) =
      (Id.run (Dataflow.solve g v.factDomain (fun b x => pure (v.factFlow b x)) v.initialFact budget)).map
        (Dataflow.Solution.map Fact.state) :=
    Dataflow.solve_map factDomain_hom (fun _ _ => rfl) v.initialFact budget
  have htrace : Dataflow.solveTrace g v.domain v.flow v.initialState budget =
      (Dataflow.solveTrace g v.factDomain v.factFlow v.initialFact budget).map fun w => (w.1, w.2.state) :=
    Dataflow.solveTrace_map factDomain_hom (fun _ _ => rfl) v.initialFact budget
  rw [hmap] at hs
  cases hs' : Id.run (Dataflow.solve g v.factDomain (fun b x => pure (v.factFlow b x)) v.initialFact budget) with
  | error n =>
    rw [hs'] at hs
    cases hs
  | ok sol' =>
    rw [hs'] at hs
    have hsol : sol = sol'.map Fact.state := by
      cases hs
      rfl
    intro w hw
    rw [htrace] at hw
    obtain ⟨w', hw', rfl⟩ := List.mem_map.mp hw
    obtain ⟨y, hy, hle⟩ := Dataflow.le_of_mem_solveTrace factDomain_lawful monotone_factFlow hs' w' hw'
    refine ⟨w'.2, y, rfl, ?_, hle⟩
    rw [hsol, Dataflow.Solution.inAt_map, hy]
    rfl

/-- The summary of a solve lists exactly the parameters the transfer records from the final
facts. -/
theorem mem_ofLog_iff_blockHazards {m : Type → Type} [Monad m] [LawfulMonad m] [MonadAttach m]
    [LawfulMonadAttach m] {summaryOf : Option (MethodId → m (Option UsageMap))}
    {answers : Option (MethodId → Option UsageMap)}
    (hfix : Option.Rel (fun lookup answer => ∀ c, Returns (lookup c) (answer c)) summaryOf answers)
    (g : Graph) (budget : Nat) {sol : Dataflow.Solution AnalysisState} {log : HazardLog}
    (hrun : MonadAttach.CanReturn ((Dataflow.solve g v.domain (v.transfer summaryOf) v.initialState budget).run {})
      (.ok sol, log)) (p : ParamRef) :
    p ∈ (UsageMap.ofLog v.prog log).parameters ↔ ∃ b x, sol.inAt b = some x ∧ p ∈ v.blockHazards answers b x := by
  have hsolve : Id.run (Dataflow.solve g v.domain (fun b x => pure (v.flow b x)) v.initialState budget) = .ok sol := by
    have h := hrun
    rw [Dataflow.solve_factor (v.transfer summaryOf) (v.transfer_returns summaryOf)] at h
    exact (eq_of_canReturn_bind_pure h).symm
  rw [UsageMap.mem_parameters_ofLog, solve_adds hfix g budget {} _ log hrun p]
  simp only [HazardLog.contains_empty, Bool.false_eq_true, false_or, List.mem_flatMap]
  constructor
  · -- a hazard found at an early visit is found again from the final input
    rintro ⟨w, hw, hp⟩
    obtain ⟨x, y, hx, hy, hle⟩ := le_final_of_mem_solveTrace hsolve w hw
    exact ⟨w.1, y.state, hy, mem_blockHazards_of_le hle w.1 (hx ▸ hp)⟩
  · rintro ⟨b, x, hx, hp⟩
    exact ⟨(b, x), Dataflow.mem_solveTrace hsolve hx, hp⟩

end Procedure

namespace Analysis

/-- The summary of a procedure's body lists exactly the parameters its transfer records from the
final facts. -/
theorem mem_analyzeBody_usages_iff (env : Env) (summaryOf : MethodId → SessionM (Option UsageMap))
    (answer : MethodId → Option UsageMap) (hfixed : ∀ c, Returns (summaryOf c) (answer c))
    (p : MethodId) (session : Session) {g : Graph} (hg : env.facts.graph? p = some g)
    {sol : Dataflow.Solution AnalysisState}
    (hsol : ((analyzeBody env summaryOf p).run session).1.dataflow = some sol) (q : ParamRef) :
    q ∈ ((analyzeBody env summaryOf p).run session).1.usages.parameters ↔
      ∃ b x, sol.inAt b = some x ∧ q ∈ (Procedure.new env.facts env.options g).blockHazards
        (if env.options.interprocedural then some answer else none) b x := by
  have hfix : Option.Rel (fun lookup answer => ∀ c, Returns (lookup c) (answer c))
      (if env.options.interprocedural then some summaryOf else none)
      (if env.options.interprocedural then some answer else none) := by
    split
    · exact .some hfixed
    · exact .none
  unfold analyzeBody at hsol ⊢
  rw [hg] at hsol ⊢
  dsimp only at hsol ⊢
  cases hv : g.validate (env.prog.methodRepr p) with
  | error e =>
    rw [hv] at hsol
    cases hsol
  | ok u =>
    cases u
    rw [hv] at hsol
    dsimp only at hsol ⊢
    -- the outcome is read off one run of the solve, within its allowance
    rw [Dataflow.run_solveTimed_bind, StateT.run_bind] at hsol ⊢
    set v := Procedure.new env.facts env.options g
    set budget := Dataflow.allowance env.options.maxIterations.toNat env.options.maxSeconds (env.facts.clock p)
    set lookup := if env.options.interprocedural then some summaryOf else none
    rcases hout : ((Dataflow.solve g v.domain (v.transfer lookup) v.initialState budget).run {}).run session
      with ⟨⟨res, log⟩, s'⟩
    rw [hout] at hsol
    cases res with
    | error n => cases hsol
    | ok sol' =>
      cases hsol
      have hcan : MonadAttach.CanReturn
          ((Dataflow.solve g v.domain (v.transfer lookup) v.initialState budget).run {} : SessionM _) (.ok sol, log) :=
        ⟨session, s', hout⟩
      exact Procedure.mem_ofLog_iff_blockHazards hfix g budget hcan q

/-- The analysis of `f` alone, with the default options. -/
def readLoopEnv : Env := ⟨oneParamFacts.register readLoopGraph, {}⟩

/-- The facts `f` settles on: `x` unvalidated at every block. -/
def readLoopSolution : Dataflow.Solution AnalysisState :=
  { order := #[0, 2, 1], ordinals := #[0, 2, 1].map readLoopGraph.ordinal, exitRank := some 2,
    ins := #[some xUnvalidated, some xUnvalidated, some xUnvalidated],
    outs := #[some xUnvalidated, some xUnvalidated, some xUnvalidated], iterations := 4 }

/-- Analysing `f` with no callee summarized completes with `readLoopSolution`, and `x` is in
its summary exactly when some block's transfer, from its final input, records a hazard for it. -/
theorem mem_analyzeBody_usages_readLoop :
    ((analyzeBody readLoopEnv (fun _ => pure none) 0).run {}).1.dataflow = some readLoopSolution ∧
      (⟨0, 0⟩ ∈ ((analyzeBody readLoopEnv (fun _ => pure none) 0).run {}).1.usages.parameters ↔
        ∃ b x, readLoopSolution.inAt b = some x ∧
          ⟨0, 0⟩ ∈ (Procedure.new readLoopEnv.facts {} readLoopGraph).blockHazards (some fun _ => none) b x) :=
  have hsol : ((analyzeBody readLoopEnv (fun _ => pure none) 0).run {}).1.dataflow = some readLoopSolution := by
    with_unfolding_all rfl
  ⟨hsol, mem_analyzeBody_usages_iff readLoopEnv (fun _ => pure none) (fun _ => none)
    (fun _ => Returns.pure _) 0 {} rfl hsol ⟨0, 0⟩⟩

end Analysis

end NullGuard
